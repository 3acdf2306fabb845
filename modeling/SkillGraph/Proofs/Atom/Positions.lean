import SkillGraph.Proofs.Atom.Faultless
import SkillGraph.Proofs.Atom.Storage
import SkillGraph.Proofs.Except

/-! Arguments by position. In a faultless atom all scalar fields stand before the array field, so
that each argument has one place of its own, and the number of arguments alone decides which fields
a call holds. -/
namespace SkillGraph

def Node.field? : Node → String → Option Value
  | .call _ fields, key => fieldValue? fields key
  | _, _ => none

/-- What scalar fields hold if each of them takes the argument at its own position. -/
def singles (fs : List Field) (args : List Value) : List (String × Value) :=
  List.zipWith (fun f v => (f.key, f.store v)) fs args

namespace Atom

def scalars (a : Atom) : List Field := a.fields.filter (!·.kind.isArray)

/-- Every argument in its place: a scalar field holds the argument at its own position, and the
array field all arguments behind those. -/
def assignment (a : Atom) (args : List Value) : List (String × Value) :=
  singles a.scalars args ++
    match a.array?, args.drop a.scalars.length with
    | some f, v :: rest => [(f.key, .list ((v :: rest).map f.store))]
    | _, _ => []

/-- The required array field that these arguments leave with nothing. -/
def lacking? (a : Atom) (args : List Value) : Option Field :=
  a.array?.filter fun f => !f.optional && args.length = a.scalars.length

end Atom

section

variable {call : String} {fs : List Field} {args : List Value}

@[simp] theorem singles_nil (fs : List Field) : singles fs [] = [] := by
  cases fs <;> rfl

@[simp] theorem singles_cons (f : Field) (fs : List Field) (v : Value) (args : List Value) :
    singles (f :: fs) (v :: args) = (f.key, f.store v) :: singles fs args := rfl

theorem keys_singles (fs : List Field) (args : List Value) :
    (singles fs args).map Prod.fst = (fs.map Field.key).take args.length := by
  induction fs generalizing args with
  | nil => rw [List.map_nil, List.take_nil]; rfl
  | cons f fs ih => cases args with
    | nil => rfl
    | cons v args => simp [ih]

/-- Where the arguments end before the last of some scalar fields, no later field is looked at. -/
theorem fillFields_of_length_lt (scalar : ∀ f ∈ fs, f.kind.isArray = false) (rest : List Field)
    (few : args.length < fs.length) :
    fillFields call (fs ++ rest) args = .ok (singles fs args) := by
  induction fs generalizing args with
  | nil => exact absurd few (Nat.not_lt_zero _)
  | cons f fs ih =>
    obtain ⟨single, others⟩ := List.forall_mem_cons.1 scalar
    cases args with
    | nil => simp [fillFields, single]
    | cons v args =>
      simp [fillFields, single, ih others (Nat.lt_of_succ_lt_succ few), Except.map]

theorem fillFields_append (scalar : ∀ f ∈ fs, f.kind.isArray = false) (rest : List Field)
    (enough : fs.length ≤ args.length) : fillFields call (fs ++ rest) args =
      (fillFields call rest (args.drop fs.length)).map (singles fs args ++ ·) := by
  induction fs generalizing args with
  | nil => cases filled : fillFields call rest args <;> simp [filled, Except.map, singles]
  | cons f fs ih =>
    obtain ⟨single, others⟩ := List.forall_mem_cons.1 scalar
    obtain ⟨v, args, rfl⟩ := List.exists_cons_of_length_pos (Nat.zero_lt_of_lt enough)
    rw [List.cons_append, fillFields, if_neg (by simp [single]),
      ih others (Nat.le_of_succ_le_succ enough), List.length_cons, List.drop_succ_cons]
    cases fillFields call rest (args.drop fs.length) <;> rfl

end

section

variable {fields : List (String × Value)} {key : String}

theorem isSome_fieldValue?_iff :
    (fieldValue? fields key).isSome = true ↔ key ∈ fields.map Prod.fst := by
  rw [fieldValue?, List.lookup_isSome_iff]
  simp

theorem fieldValue?_eq_some (distinct : (fields.map Prod.fst).Nodup) {v : Value}
    (member : (key, v) ∈ fields) : fieldValue? fields key = some v := by
  obtain ⟨front, back, rfl⟩ := List.append_of_mem member
  rw [fieldValue?, List.lookup_eq_some_iff]
  refine ⟨front, back, rfl, ?_⟩
  intro p before
  rw [List.map_append, List.map_cons, List.nodup_append] at distinct
  have apart := distinct.2.2 p.1 (List.mem_map_of_mem before) key List.mem_cons_self
  simpa using Ne.symm apart

end

theorem Layout.eq_append {fs : List Field} (layout : Layout fs) :
    fs.filter (!·.kind.isArray) ++ (fs.find? (·.kind.isArray)).toList = fs := by
  induction layout with
  | nil => rfl
  | @cons f fs _ last _ ih =>
    cases array : f.kind.isArray with
    | true =>
      obtain rfl := last array
      simp [array]
    | false => simpa [array] using ih

namespace Atom

variable {a : Atom} {args : List Value} {f : Field} {n : Node} {i : Nat}

theorem scalar_of_mem_scalars (member : f ∈ a.scalars) : f.kind.isArray = false := by
  simpa using (List.mem_filter.1 member).2

theorem isArray_of_array? (found : a.array? = some f) : f.kind.isArray = true := by
  simpa using List.find?_some found

theorem fields_eq (layout : Layout a.fields) : a.scalars ++ a.array?.toList = a.fields :=
  layout.eq_append

theorem length_fields (layout : Layout a.fields) :
    a.fields.length = a.scalars.length + a.array?.toList.length := by
  rw [← List.length_append, a.fields_eq layout]

theorem array?_eq_some (layout : Layout a.fields) (member : f ∈ a.fields)
    (array : f.kind.isArray = true) : a.array? = some f := by
  rw [← a.fields_eq layout, List.mem_append] at member
  rcases member with scalar | last
  · simp [scalar_of_mem_scalars scalar] at array
  · simpa using last

theorem lacking?_eq_some_iff : a.lacking? args = some f ↔
    a.array? = some f ∧ f.optional = false ∧ args.length = a.scalars.length := by
  simp [lacking?, Option.filter_eq_some_iff]

/-- The fields are filled by position unless a required array field is left with nothing. -/
theorem fillFields_fields (layout : Layout a.fields) (args : List Value) :
    fillFields a.name a.fields args = match a.lacking? args with
      | some f => .error (.emptyArray a.name f.key)
      | none => .ok (a.assignment args) := by
  rw [← a.fields_eq layout]
  rcases Nat.lt_or_ge args.length a.scalars.length with few | enough
  · have none : a.lacking? args = none := by simp [lacking?, Nat.ne_of_lt few]
    rw [fillFields_of_length_lt (fun f => scalar_of_mem_scalars) _ few, none, assignment,
      List.drop_eq_nil_of_le (Nat.le_of_lt few)]
    simp
  rw [fillFields_append (fun f => scalar_of_mem_scalars) _ enough]
  cases found : a.array? with
  | none => simp [fillFields, assignment, lacking?, found, Except.map]
  | some f =>
    have array := isArray_of_array? found
    have length : (args.drop a.scalars.length).length = args.length - a.scalars.length :=
      List.length_drop
    cases left : args.drop a.scalars.length with
    | nil =>
      have same : args.length = a.scalars.length := by
        rw [left, List.length_nil] at length
        omega
      cases optional : f.optional <;>
        simp [fillFields, array, optional, assignment, lacking?, found, left, same,
          Option.filter_some, Except.map]
    | cons v rest =>
      have more : args.length ≠ a.scalars.length := by
        rw [left, List.length_cons] at length
        omega
      simp [fillFields, array, assignment, lacking?, found, left, more, Except.map]

theorem instantiate_eq_ok_iff :
    a.instantiate args = .ok n ↔ a.leastArguments ≤ args.length ∧
      ∃ fields, fillFields a.name a.fields args = .ok fields ∧ .call a.tag fields = n := by
  unfold instantiate
  split
  case isTrue few => simp [Nat.not_le.2 few]
  case isFalse enough => rw [map_eq_ok_iff, and_iff_right (Nat.not_lt.1 enough)]

theorem instantiate_of_length_lt (few : args.length < a.leastArguments) : a.instantiate args =
    .error (.argCount a.name a.leastArguments args.length (some a.signature)) := if_pos few

theorem instantiate_of_length_le (layout : Layout a.fields)
    (enough : a.leastArguments ≤ args.length) : a.instantiate args = match a.lacking? args with
      | some f => .error (.emptyArray a.name f.key)
      | none => .ok (.call a.tag (a.assignment args)) := by
  rw [instantiate, if_neg (Nat.not_lt.2 enough), fillFields_fields layout]
  cases a.lacking? args <;> rfl

theorem instantiate_eq_ok_iff_of_layout (layout : Layout a.fields) :
    a.instantiate args = .ok n ↔ a.leastArguments ≤ args.length ∧ a.lacking? args = none ∧
      n = .call a.tag (a.assignment args) := by
  rcases Nat.lt_or_ge args.length a.leastArguments with few | enough
  · simp [instantiate_of_length_lt few, Nat.not_le.2 few]
  · rw [instantiate_of_length_le layout enough, and_iff_right enough]
    cases a.lacking? args <;> simp [eq_comm]

theorem keys_assignment (layout : Layout a.fields) (args : List Value) :
    (a.assignment args).map Prod.fst = (a.fields.map Field.key).take args.length := by
  rw [← a.fields_eq layout, assignment, List.map_append, List.map_append, keys_singles,
    List.take_append, List.length_map]
  congr 1
  have length : (args.drop a.scalars.length).length = args.length - a.scalars.length :=
    List.length_drop
  cases found : a.array? with
  | none => simp
  | some f => cases left : args.drop a.scalars.length with
    | nil => simp [← length, left]
    | cons v rest => simp [← length, left]

theorem nodup_keys_assignment (layout : Layout a.fields) (args : List Value) :
    ((a.assignment args).map Prod.fst).Nodup := by
  rw [keys_assignment layout]
  exact layout.nodup.sublist (List.take_sublist ..)

/-- A call holds one field for each argument, as long as there are fields. -/
theorem isSome_assignment_iff (layout : Layout a.fields) (args : List Value)
    (place : a.fields[i]? = some f) :
    (fieldValue? (a.assignment args) f.key).isSome = true ↔ i < args.length := by
  have here : (a.fields.map Field.key)[i]? = some f.key := by rw [List.getElem?_map, place]; rfl
  have bound : i < (a.fields.map Field.key).length := (List.getElem?_eq_some_iff.1 here).1
  rw [isSome_fieldValue?_iff, keys_assignment layout, List.mem_iff_getElem?]
  simp only [List.getElem?_take, Option.ite_none_right_eq_some]
  constructor
  · rintro ⟨j, within, there⟩
    obtain rfl := (List.getElem?_inj bound layout.nodup).1 (here.trans there.symm)
    exact within
  · exact fun within => ⟨i, within, here⟩

theorem single_of_assignment (layout : Layout a.fields) {v : Value}
    (place : a.scalars[i]? = some f) (given : args[i]? = some v) :
    fieldValue? (a.assignment args) f.key = some (f.store v) := by
  apply fieldValue?_eq_some (nodup_keys_assignment layout args)
  apply List.mem_append_left
  apply List.mem_of_getElem? (i := i)
  rw [singles, List.getElem?_zipWith, place, given]

theorem items_of_assignment (layout : Layout a.fields) (found : a.array? = some f)
    (more : a.scalars.length < args.length) : fieldValue? (a.assignment args) f.key =
      some (.list ((args.drop a.scalars.length).map f.store)) := by
  apply fieldValue?_eq_some (nodup_keys_assignment layout args)
  apply List.mem_append_right
  obtain ⟨v, rest, left⟩ : ∃ v rest, args.drop a.scalars.length = v :: rest :=
    List.exists_cons_of_length_pos (by simpa using more)
  simp [found, left]

/-- Where the argument at a position of the call ends up. -/
inductive Places (a : Atom) (n : Node) (i : Nat) (v : Value) : Prop where
  | single (f : Field) (place : a.scalars[i]? = some f) (held : n.field? f.key = some (f.store v))
  | item (f : Field) (items : List Value) (found : a.array? = some f)
    (behind : a.scalars.length ≤ i) (held : n.field? f.key = some (.list items))
    (inside : items[i - a.scalars.length]? = some (f.store v))
  | dropped (none : a.array? = none) (past : a.fields.length ≤ i)

theorem places_assignment (layout : Layout a.fields) {v : Value} (given : args[i]? = some v) :
    a.Places (.call a.tag (a.assignment args)) i v := by
  rcases Nat.lt_or_ge i a.scalars.length with early | late
  · have place : a.scalars[i]? = some a.scalars[i] := List.getElem?_eq_getElem early
    exact .single _ place (single_of_assignment layout place given)
  cases found : a.array? with
  | none =>
    refine .dropped found ?_
    rw [length_fields layout, found]
    exact late
  | some f =>
    obtain ⟨bound, -⟩ := List.getElem?_eq_some_iff.1 given
    refine .item f _ found late (items_of_assignment layout found (by omega)) ?_
    rw [List.getElem?_map, List.getElem?_drop, Nat.add_sub_cancel' late, given]
    rfl

end Atom

/-- Arguments by position. Too few arguments are refused. Enough of them make a call, unless a
required array is left with nothing: its fields are the first ones of the atom, each scalar field
holds the argument at its own position, and the array field all arguments behind those. Nothing is
dropped unless it lies past the last field of an atom without an array, and nothing is changed but
a literal into the form that its field keeps. -/
theorem instantiate_by_position (a : Atom) (faultless : a.fault? = none) (args : List Value) :
    ((∃ c, a.instantiate args = .error c ∧ c.code = .argCount) ↔
      args.length < a.leastArguments) ∧
    (∀ n, a.instantiate args = .ok n ↔ a.leastArguments ≤ args.length ∧
      a.lacking? args = none ∧ n = .call a.tag (a.assignment args)) ∧
    (a.assignment args).map Prod.fst = (a.fields.map Field.key).take args.length ∧
    ((a.assignment args).map Prod.fst).Nodup ∧
    (∀ i v, args[i]? = some v → a.Places (.call a.tag (a.assignment args)) i v) ∧
    ∀ (f : Field) v w, f.store v = w ↔ f.Converts v w ∨ w = v ∧ ∀ u, ¬f.Converts v u := by
  have layout := (Atom.of_fault?_eq_none faultless).2.2
  refine ⟨⟨?_, ?_⟩, fun n => Atom.instantiate_eq_ok_iff_of_layout layout,
    Atom.keys_assignment layout args, Atom.nodup_keys_assignment layout args,
    fun i v => Atom.places_assignment layout, fun f v w => Field.store_eq_iff⟩
  · rintro ⟨c, failed, code⟩
    by_contra enough
    rw [Atom.instantiate_of_length_le layout (Nat.not_lt.1 enough)] at failed
    split at failed
    · cases failed
      simp [Cause.code] at code
    · cases failed
  · exact fun few => ⟨_, Atom.instantiate_of_length_lt few, rfl⟩

def tally : Atom :=
  ⟨"Tally", "FloatTally",
    [⟨"Label", .string, none, true, false, ""⟩, ⟨"Scale", .number, none, true, false, ""⟩,
      ⟨"Items", .nodeArray, some .numeric, false, true, ""⟩], "", "numeric"⟩

/-- A scaled tally of two numbers. -/
theorem instantiate_by_position_tally :
    let args : List Value :=
      [.text "hits", .node (.negate (.literal 2)), .node (.literal 3), .number 4]
    tally.fault? = none ∧ tally.instantiate args = .ok (.call "FloatTally"
      [("Label", .text "hits"), ("Scale", .number (-2)),
        ("Items", .list [.node (.literal 3), .node (.literal 4)])]) := by
  intro args
  have faultless : tally.fault? = none := by decide
  exact ⟨faultless, ((instantiate_by_position tally faultless args).2.1 _).2
    ⟨by decide, rfl, rfl⟩⟩

end SkillGraph
