import SkillGraph.Proofs.Atom.Positions

/-! Required fields that calls go without. The check of the number of arguments counts the required
fields, but the arguments fill the fields from the left. Where optional fields stand in front, they
take arguments that were counted for required ones. -/
namespace SkillGraph

namespace Atom

variable {a : Atom} {args : List Value} {f : Field} {n : Node} {i : Nat}

theorem leastArguments_add (a : Atom) :
    a.leastArguments + a.fields.countP (·.optional) = a.fields.length := by
  rw [List.length_eq_countP_add_countP (·.optional), Nat.add_comm, leastArguments]
  simp

theorem place_of_array? (layout : Layout a.fields) (found : a.array? = some f) :
    a.fields[a.scalars.length]? = some f := by
  rw [← a.fields_eq layout, List.getElem?_append_right (Nat.le_refl _), found]
  simp

theorem lt_length_scalars (layout : Layout a.fields) (place : a.fields[i]? = some f)
    (scalar : f.kind.isArray = false) : i < a.scalars.length := by
  by_contra late
  rw [← a.fields_eq layout, List.getElem?_append_right (Nat.not_lt.1 late)] at place
  have found : a.array? = some f := by simpa using List.mem_of_getElem? place
  simp [isArray_of_array? found] at scalar

theorem lacking?_of_length_lt (few : args.length < a.scalars.length) :
    a.lacking? args = none := by
  rw [Option.eq_none_iff_forall_ne_some]
  intro f lacking
  exact absurd (lacking?_eq_some_iff.1 lacking).2.2 (Nat.ne_of_lt few)

theorem isSome_field?_iff (layout : Layout a.fields) (built : a.instantiate args = .ok n)
    (place : a.fields[i]? = some f) : (n.field? f.key).isSome = true ↔ i < args.length := by
  obtain ⟨-, -, rfl⟩ := (instantiate_eq_ok_iff_of_layout layout).1 built
  exact isSome_assignment_iff layout args place

/-- With arguments for its required fields alone, an atom whose scalar fields are more of them has a
call. -/
theorem exists_instantiate (layout : Layout a.fields) (args : List Value)
    (enough : a.leastArguments ≤ args.length) (few : args.length < a.scalars.length) :
    ∃ n, a.instantiate args = .ok n :=
  ⟨_, (instantiate_eq_ok_iff_of_layout layout).2 ⟨enough, lacking?_of_length_lt few, rfl⟩⟩

end Atom

/-- Which required fields a call holds. A field is there exactly if an argument stands at its
position, so a call of a faultless atom may go without a required scalar field. No call does exactly
if all required scalar fields are among as many fields at the front as arguments are required. -/
theorem required_of_instantiate (a : Atom) (faultless : a.fault? = none) :
    (∀ args n, a.instantiate args = .ok n → ∀ i f, a.fields[i]? = some f →
      ((n.field? f.key).isSome = true ↔ i < args.length)) ∧
    ((∀ args n, a.instantiate args = .ok n → ∀ f ∈ a.fields, f.optional = false →
        f.kind.isArray = false → (n.field? f.key).isSome = true) ↔
      ∀ i f, a.fields[i]? = some f → f.optional = false → f.kind.isArray = false →
        i < a.leastArguments) := by
  have layout := (Atom.of_fault?_eq_none faultless).2.2
  refine ⟨fun args n built i f => Atom.isSome_field?_iff layout built, ?_, ?_⟩
  · intro held i f place required scalar
    by_contra late
    have few : a.leastArguments < a.scalars.length :=
      Nat.lt_of_le_of_lt (Nat.not_lt.1 late) (Atom.lt_length_scalars layout place scalar)
    obtain ⟨n, built⟩ := Atom.exists_instantiate layout
      (List.replicate a.leastArguments (.bool true)) (by simp) (by simpa using few)
    have there := held _ n built f (List.mem_of_getElem? place) required scalar
    rw [Atom.isSome_field?_iff layout built place, List.length_replicate] at there
    exact late there
  · intro early args n built f member required scalar
    obtain ⟨i, place⟩ := List.mem_iff_getElem?.1 member
    obtain ⟨enough, -⟩ := (Atom.instantiate_eq_ok_iff_of_layout layout).1 built
    exact (Atom.isSome_field?_iff layout built place).2
      (Nat.lt_of_lt_of_le (early i f place required scalar) enough)

def labelledWait : Atom :=
  ⟨"Wait", "TaskWait",
    [⟨"Label", .string, none, true, false, ""⟩, ⟨"Seconds", .number, none, false, false, ""⟩],
    "", "task"⟩

/-- With a label, the seconds are there as well. -/
theorem required_of_instantiate_wait :
    labelledWait.fault? = none ∧ ∃ n,
      labelledWait.instantiate [.text "boss", .node (.literal 2.5)] = .ok n ∧
        (n.field? "Label").isSome = true ∧ (n.field? "Seconds").isSome = true := by
  have faultless : labelledWait.fault? = none := by decide
  have held := (required_of_instantiate labelledWait faultless).1
    [.text "boss", .node (.literal 2.5)] _ rfl
  exact ⟨faultless, _, rfl, (held 0 _ rfl).2 (by decide), (held 1 _ rfl).2 (by decide)⟩

/-- One argument is enough for the required field, but it is taken for the label. -/
theorem required_of_instantiate_label :
    labelledWait.fault? = none ∧ ∃ n, labelledWait.instantiate [.text "boss"] = .ok n ∧
      ∃ f ∈ labelledWait.fields, f.optional = false ∧ f.kind.isArray = false ∧
        n.field? f.key = none :=
  ⟨by decide, _, rfl, ⟨"Seconds", .number, none, false, false, ""⟩, by decide, rfl, rfl, rfl⟩

def Node.HoldsItems (n : Node) (key : String) : Prop :=
  ∃ items, items ≠ [] ∧ n.field? key = some (.list items)

namespace Atom

variable {a : Atom} {args : List Value} {f : Field} {n : Node}

/-- A call whose arguments end before the last scalar field goes without the array. -/
theorem instantiate_before_array (layout : Layout a.fields) (found : a.array? = some f)
    (enough : a.leastArguments ≤ args.length) (few : args.length < a.scalars.length) :
    ∃ n, a.instantiate args = .ok n ∧ n.field? f.key = none := by
  obtain ⟨n, built⟩ := exists_instantiate layout args enough few
  refine ⟨n, built, Option.not_isSome_iff_eq_none.1 ?_⟩
  rw [isSome_field?_iff layout built (place_of_array? layout found)]
  exact Nat.lt_asymm few

theorem instantiate_without_items (layout : Layout a.fields) (found : a.array? = some f)
    (required : f.optional = false) (enough : a.leastArguments ≤ args.length)
    (same : args.length = a.scalars.length) :
    a.instantiate args = .error (.emptyArray a.name f.key) := by
  rw [instantiate_of_length_le layout enough, lacking?_eq_some_iff.2 ⟨found, required, same⟩]

theorem instantiate_with_items (layout : Layout a.fields) (found : a.array? = some f)
    (enough : a.leastArguments ≤ args.length) (more : a.scalars.length < args.length) :
    ∃ n, a.instantiate args = .ok n ∧ n.HoldsItems f.key := by
  have reached : a.lacking? args = none := by
    rw [Option.eq_none_iff_forall_ne_some]
    intro g lacking
    exact Nat.ne_of_gt more (lacking?_eq_some_iff.1 lacking).2.2
  refine ⟨_, (instantiate_eq_ok_iff_of_layout layout).2 ⟨enough, reached, rfl⟩, _, ?_,
    items_of_assignment layout found more⟩
  rw [Ne, List.map_eq_nil_iff, List.drop_eq_nil_iff]
  exact Nat.not_le.2 more

/-- How a call of an atom with the required array field `f` turns out. -/
inductive Gathers (a : Atom) (f : Field) (args : List Value) : Prop where
  | short (few : args.length < a.leastArguments) (failed : a.instantiate args =
      .error (.argCount a.name a.leastArguments args.length (some a.signature)))
  /-- The arguments end before the last scalar field. -/
  | hidden (enough : a.leastArguments ≤ args.length) (few : args.length + 1 < a.fields.length)
    (built : ∃ n, a.instantiate args = .ok n ∧ n.field? f.key = none)
  | empty (enough : a.leastArguments ≤ args.length) (same : args.length + 1 = a.fields.length)
    (failed : a.instantiate args = .error (.emptyArray a.name f.key))
  | filled (many : a.fields.length ≤ args.length)
    (built : ∃ n, a.instantiate args = .ok n ∧ n.HoldsItems f.key)

theorem gathers (layout : Layout a.fields) (found : a.array? = some f)
    (required : f.optional = false) (args : List Value) : a.Gathers f args := by
  have length : a.fields.length = a.scalars.length + 1 := by
    rw [length_fields layout, found]
    rfl
  rcases Nat.lt_or_ge args.length a.leastArguments with short | enough
  · exact .short short (instantiate_of_length_lt short)
  rcases Nat.lt_trichotomy args.length a.scalars.length with few | same | more
  · exact .hidden enough (by omega) (instantiate_before_array layout found enough few)
  · exact .empty enough (by omega) (instantiate_without_items layout found required enough same)
  · exact .filled (by omega) (instantiate_with_items layout found enough more)

end Atom

/-- Required arrays. If there are enough arguments for a call of a faultless atom, then its array
field holds some items, or the call is refused because nothing is left for them, unless the
arguments end before the last scalar field: then the array is not looked at, and the call goes
without it. Such a call exists exactly if the atom has more than one optional field. -/
theorem items_of_instantiate (a : Atom) (faultless : a.fault? = none) {f : Field}
    (member : f ∈ a.fields) (array : f.kind.isArray = true) (required : f.optional = false) :
    (∀ args, a.Gathers f args) ∧
    ((∀ args n, a.instantiate args = .ok n → n.HoldsItems f.key) ↔
      a.fields.countP (·.optional) ≤ 1) := by
  have layout := (Atom.of_fault?_eq_none faultless).2.2
  have found := Atom.array?_eq_some layout member array
  have least := a.leastArguments_add
  have gathers := Atom.gathers layout found required
  refine ⟨gathers, ?_, ?_⟩
  · intro held
    by_contra several
    cases gathers (List.replicate a.leastArguments (.bool true)) with
    | short few => simp at few
    | hidden enough few built =>
      obtain ⟨n, built, none⟩ := built
      obtain ⟨items, -, there⟩ := held _ n built
      simp [none] at there
    | empty enough same | filled same => rw [List.length_replicate] at same; omega
  · intro single args n built
    cases gathers args with
    | short few failed | empty enough same failed => cases failed.symm.trans built
    | hidden enough few => omega
    | filled many built' =>
      obtain ⟨m, built', held⟩ := built'
      obtain rfl := Except.ok.inj (built'.symm.trans built)
      exact held

def tallied : Field := ⟨"Items", .nodeArray, some .numeric, false, true, ""⟩

/-- A tally with a label, a scale and an item. -/
theorem items_of_instantiate_scaled :
    tally.fault? = none ∧ tallied ∈ tally.fields ∧ tallied.kind.isArray = true ∧
      tallied.optional = false ∧ ∃ n,
        tally.instantiate [.text "hits", .number 2, .number 3] = .ok n ∧ n.HoldsItems "Items" := by
  have faultless : tally.fault? = none := by decide
  have member : tallied ∈ tally.fields := by decide
  refine ⟨faultless, member, rfl, rfl, ?_⟩
  cases (items_of_instantiate tally faultless member rfl rfl).1
    [.text "hits", .number 2, .number 3] with
  | short few | hidden _ few | empty _ few => exact absurd few (by decide)
  | filled _ built => exact built

/-- The label is enough for the required array, but it leaves nothing for it, and the scale hides
that. -/
theorem items_of_instantiate_hidden :
    tally.fault? = none ∧ tallied ∈ tally.fields ∧ tallied.kind.isArray = true ∧
      tallied.optional = false ∧ ∃ n, tally.instantiate [.text "hits"] = .ok n ∧
        n.field? "Items" = none :=
  ⟨by decide, by decide, rfl, rfl, _, rfl, rfl⟩

end SkillGraph
