import SkillGraph.Proofs.Spelling.Texts

/-! Calls that leave optional fields out. Records name their fields, but arguments fill fields from
the left, so a call comes back from its spelling only if nothing is left out before a field that is
there. Otherwise the first field left out takes an argument that belongs to another one. -/
namespace SkillGraph

variable {r : Registry}

/-- A value that comes back into a field on its own: the field stores it for what its spelling
parses to. -/
def Value.Recovers (r : Registry) (f : Field) (v : Value) : Prop :=
  ∃ arg, Compiler.parse ⟨r, .none⟩ (v.spell r) = .ok arg ∧ f.store arg = v

def Value.Suits (r : Registry) (f : Field) : Value → Prop
  | .list items => f.kind.isArray = true ∧ items ≠ [] ∧ ∀ item ∈ items, item.Recovers r f
  | v => f.kind.isArray = false ∧ v.Recovers r f

theorem Value.recovers_iff_has {f : Field} {v : Value} :
    v.Recovers r f ↔ v.Has r .spelled f.kind := by
  constructor
  · rintro ⟨arg, parsed, stored⟩
    exact Value.has_of_parse_spell parsed stored
  · intro has
    have same := v.same_self f.kind ((v.fits_iff_has f.kind).2 has)
    obtain ⟨arg, evaluated, stored⟩ := v.evaluate_expression Form.spelled_returns f has same
    refine ⟨arg, ?_, stored⟩
    rw [← v.text_expression f.kind has,
      (v.shown Form.spelled_returns.text f.kind has).parse .none, evaluated]
    rfl

theorem itemsHave_iff_recover {f : Field} {items : List Value} :
    (∀ item ∈ items, item.Recovers r f) ↔ ItemsHave r .spelled f.kind items := by
  induction items with
  | nil => simp [ItemsHave]
  | cons item rest ih => rw [List.forall_mem_cons, ItemsHave, ih, Value.recovers_iff_has]

/-- The values that come back on their own are those of well-formed calls. -/
theorem Value.suits_iff_keptBy {f : Field} {v : Value} :
    v.Suits r f ↔ v.KeptBy r .spelled f := by
  cases v with
  | list items => exact and_congr Iff.rfl (and_congr Iff.rfl itemsHave_iff_recover)
  | _ => exact and_congr Iff.rfl Value.recovers_iff_has

def storedFields (value : Field → Value) (held : List Field) : List (String × Value) :=
  held.map fun f => (f.key, value f)

section

variable {F : Form} {value : Field → Value} {held : List Field}

theorem hold_storedFields (kept : ∀ f ∈ held, (value f).KeptBy r F f) :
    Hold r F held (storedFields value held) := by
  induction held with
  | nil => exact .nil
  | cons f held ih =>
    obtain ⟨first, others⟩ := List.forall_mem_cons.1 kept
    exact .cons ⟨rfl, first⟩ (ih others)

theorem Value.KeptBy.one_le_count {f : Field} {v : Value} (kept : v.KeptBy r F f) :
    1 ≤ v.count := by
  cases v with
  | list items => exact List.length_pos_iff.2 kept.2.1
  | _ => exact Nat.le_refl 1

theorem Hold.length_le {fields : List (String × Value)} (hold : Hold r F held fields) :
    held.length ≤ argumentCount fields := by
  induction hold with
  | nil => exact Nat.le_refl 0
  | @cons f field held more kept _ ih =>
    have one := kept.2.one_le_count
    rw [argumentCount_cons, List.length_cons]
    omega

/-- Fields without a gap, behind which no required array is left out. -/
theorem Hold.fieldsHave {fields : List (String × Value)} (hold : Hold r F held fields)
    {absent : List Field} (next : ∀ f ∈ absent.head?, f.kind.isArray = true → f.optional = true) :
    FieldsHave r F (held ++ absent) fields := by
  induction hold with
  | nil =>
    cases absent with
    | nil => trivial
    | cons f absent => exact next f rfl
  | @cons f field held more kept _ ih => exact fieldsHave_cons_cons.2 ⟨kept.1, kept.2, ih⟩

end

theorem Layout.sublist {held fs : List Field} (layout : Layout fs) (within : held.Sublist fs) :
    Layout held := by
  induction within with
  | slnil => exact .nil
  | cons f _ ih =>
    cases layout with
    | cons _ _ others => exact ih others
  | cons_cons f within ih =>
    cases layout with
    | cons fresh last others =>
      refine .cons (fun member => fresh ((within.map Field.key).subset member)) ?_ (ih others)
      intro array
      obtain rfl := last array
      exact List.sublist_nil.1 within

theorem Layout.scalar {front rest : List Field} {f : Field} (layout : Layout (front ++ f :: rest)) :
    ∀ g ∈ front, g.kind.isArray = false := by
  induction front with
  | nil => simp
  | cons g front ih =>
    cases layout with
    | cons _ last others =>
      refine List.forall_mem_cons.2 ⟨Bool.eq_false_iff.2 ?_, ih others⟩
      intro array
      simpa using last array

/-- If the fields that are there are the first ones, then all others are left out. -/
theorem absent_of_append {fs absent : List Field} {present : Field → Bool}
    (split : fs.filter present ++ absent = fs) : ∀ f ∈ absent, present f = false := by
  have again : (fs.filter present ++ absent).filter present = fs.filter present := by rw [split]
  rw [List.filter_append, List.filter_filter] at again
  simp only [Bool.and_self, List.append_right_eq_self, List.filter_eq_nil_iff] at again
  intro f member
  simpa using again f member

/-- If the fields that are there are not the first ones, then one is left out before another, so
that more are there than stand in front of it. -/
theorem exists_gap {fs : List Field} {present : Field → Bool}
    (apart : ¬fs.filter present <+: fs) : ∃ front gap rest, fs = front ++ gap :: rest ∧ rest ≠ [] ∧
      present gap = false ∧ front.length < (fs.filter present).length := by
  induction fs with
  | nil => exact absurd List.nil_prefix apart
  | cons f fs ih =>
    cases there : present f with
    | true =>
      rw [List.filter_cons_of_pos there, List.prefix_cons_inj] at apart
      obtain ⟨front, gap, rest, rfl, some, absent, more⟩ := ih apart
      refine ⟨f :: front, gap, rest, rfl, some, absent, ?_⟩
      rw [List.filter_cons_of_pos there, List.length_cons, List.length_cons]
      exact Nat.succ_lt_succ more
    | false =>
      have later : (f :: fs).filter present ≠ [] := fun none => apart (none ▸ List.nil_prefix)
      refine ⟨[], f, fs, rfl, ?_, there, List.length_pos_iff.2 later⟩
      rintro rfl
      simp [there] at later

def OptionalLast (fs : List Field) : Prop :=
  fs.Pairwise fun f g => f.optional = true → g.optional = true

instance (fs : List Field) : Decidable (OptionalLast fs) :=
  inferInstanceAs (Decidable (fs.Pairwise _))

/-- The parser evaluates the call with an argument for every field that is held. -/
theorem parse_spell_call {F : Form} (quotable : ∀ s, F.text s → Lexeme.Quotable s.toList)
    (red : Reduction) {a : Atom} {held : List Field} {fields : List (String × Value)}
    (registered : a ∈ r.atoms) (within : held.Sublist a.fields) (hold : Hold r F held fields) :
    Compiler.parse ⟨r, red⟩ ((Node.call a.tag fields).spell r) =
      ((Infix.call a.name (fieldExpressions r fields)).evaluate r red).mapError
        (·.diagnostic.inExpression ((Node.call a.tag fields).spell r)) := by
  have text : (Infix.call a.name (fieldExpressions r fields)).text =
      (Node.call a.tag fields).spell r := by
    rw [Node.spell_call registered within hold, ← texts_fieldExpressions held fields hold]
    rfl
  have parsed := (Infix.Shown.call registered (fields_shown quotable held fields hold)).parse red
  rwa [text] at parsed

theorem exists_evaluateAll {held : List Field} {fields : List (String × Value)}
    (layout : Layout held) (hold : Hold r .spelled held fields) :
    ∃ args, Infix.evaluateAll r .none (fieldExpressions r fields) = .ok args ∧
      args.length = argumentCount fields := by
  have none : ∀ f ∈ ([] : List Field).head?, f.kind.isArray = true → f.optional = true := by simp
  have inside := hold.fieldsHave none
  rw [List.append_nil] at inside
  have same := sameFields_self held fields ((fieldsFit_iff_have held fields).2 inside)
  have whole : Layout (held ++ []) := by rwa [List.append_nil]
  obtain ⟨args, evaluated, stores⟩ :=
    evaluate_fieldExpressions Form.spelled_returns held fields whole hold same
  exact ⟨args, evaluated, stores.length hold⟩

/-- With more arguments than fields in front of it, a field is filled. No array is left with nothing
if all fields behind that one are optional. -/
theorem instantiate_of_gap {a : Atom} {front rest : List Field} {gap : Field} {args : List Value}
    (split : a.fields = front ++ gap :: rest) (layout : Layout a.fields) (some : rest ≠ [])
    (optional : ∀ f ∈ rest, f.optional = true) (enough : a.leastArguments ≤ args.length)
    (many : front.length < args.length) : ∃ fields, a.instantiate args = .ok (.call a.tag fields) ∧
      (fieldValue? fields gap.key).isSome = true := by
  have place : a.fields[front.length]? = Option.some gap := by simp [split]
  obtain ⟨g, others, rfl⟩ := List.exists_cons_of_ne_nil some
  have apart : Layout ((front ++ [gap]) ++ g :: others) := by simpa [split] using layout
  have reached : a.lacking? args = none := by
    rw [Atom.lacking?, Option.filter_eq_none_iff]
    intro f found
    have member := List.mem_of_find?_eq_some found
    rw [split, List.append_cons] at member
    rcases List.mem_append.1 member with scalar | behind
    · have array := Atom.isArray_of_array? found
      simp [apart.scalar f scalar] at array
    · simp [optional f behind]
  exact ⟨_, (Atom.instantiate_eq_ok_iff_of_layout layout).2 ⟨enough, reached, rfl⟩,
    (Atom.isSome_assignment_iff layout args place).2 many⟩

/-- Leaving optional fields out. A call that holds all required fields of its atom and some optional
ones, each with a value that comes back on its own, comes back from its spelling if the fields that
it holds are the first ones. If one is left out before another, then the call is read back with a
value for a field that it does not hold. -/
theorem parseGraph_spellGraph_present (r : Registry) (a : Atom) (registered : a ∈ r.atoms)
    (last : OptionalLast a.fields) (present : Field → Bool)
    (required : ∀ f ∈ a.fields, f.optional = false → present f = true) (value : Field → Value)
    (suits : ∀ f ∈ a.fields, present f = true → (value f).Suits r f) :
    let n : Node := .call a.tag (storedFields value (a.fields.filter present))
    (a.fields.filter present <+: a.fields →
      Compiler.parseGraph ⟨r, .none⟩ (Compiler.spellGraph ⟨r, .none⟩ n) = .ok n) ∧
    (¬a.fields.filter present <+: a.fields → ∃ fields,
      Compiler.parseGraph ⟨r, .none⟩ (Compiler.spellGraph ⟨r, .none⟩ n) =
        .ok (.call a.tag fields) ∧
      ∃ f ∈ a.fields, present f = false ∧ (fieldValue? fields f.key).isSome = true) := by
  intro n
  have layout := r.layout registered
  have within : (a.fields.filter present).Sublist a.fields := List.filter_sublist
  have hold : Hold r .spelled (a.fields.filter present)
      (storedFields value (a.fields.filter present)) := by
    refine hold_storedFields fun f member => Value.suits_iff_keptBy.1 (suits f ?_ ?_)
    · exact (List.mem_filter.1 member).1
    · exact (List.mem_filter.1 member).2
  have enough :
      a.leastArguments ≤ argumentCount (storedFields value (a.fields.filter present)) := by
    refine Nat.le_trans ?_ hold.length_le
    rw [← List.countP_eq_length_filter]
    exact List.countP_mono_left fun f member optional =>
      required f member (by simpa using optional)
  have missing : ∀ f, f ∈ a.fields → present f = false → f.optional = true := by
    intro f member absent
    by_contra other
    simp [required f member (by simpa using other)] at absent
  constructor
  · rintro ⟨absent, split⟩
    have next : ∀ f ∈ absent.head?, f.kind.isArray = true → f.optional = true := by
      intro f head _
      have member : f ∈ absent := List.mem_of_mem_head? head
      exact missing f (split ▸ List.mem_append_right _ member) (absent_of_append split f member)
    have inside := hold.fieldsHave next
    rw [split] at inside
    have has : n.Has r .spelled :=
      ⟨a, Registry.atomTagged?_eq_some_iff.2 ⟨registered, rfl⟩, enough, inside⟩
    exact parseGraph_spellGraph r n (n.wellFormed_iff_has.2 has)
  · intro apart
    obtain ⟨args, evaluated, length⟩ := exists_evaluateAll (layout.sublist within) hold
    obtain ⟨front, gap, rest, split, some, absent, more⟩ := exists_gap apart
    have many : front.length < args.length := by
      rw [length]
      exact Nat.lt_of_lt_of_le more hold.length_le
    have optional : gap.optional = true := missing gap (by simp [split]) absent
    have behind : ∀ f ∈ rest, f.optional = true := by
      rw [OptionalLast, split, List.pairwise_append, List.pairwise_cons] at last
      exact fun f member => last.2.1.1 f member optional
    obtain ⟨fields, built, bound⟩ :=
      instantiate_of_gap split layout some behind (length ▸ enough) many
    refine ⟨fields, ?_, gap, by simp [split], absent, bound⟩
    rw [Compiler.parseGraph_eq_ok_iff, Compiler.spellGraph,
      parse_spell_call Form.spelled_returns.text .none registered within hold, mapError_eq_ok_iff,
      Infix.evaluate_call_eq_ok_iff]
    exact ⟨args, evaluated, a, registered, rfl, _, built, rfl⟩

def addBuff : Atom :=
  ⟨"AddBuff", "ActionAddBuff",
    [⟨"Target", .node, some .actor, false, false, ""⟩,
      ⟨"BuffId", .string, none, false, false, ""⟩,
      ⟨"Duration", .number, none, true, false, "Seconds"⟩,
      ⟨"Refresh", .bool, none, true, false, ""⟩],
    "Apply a buff to an actor", "action"⟩

def burn (f : Field) : Value :=
  match f.key with
  | "Target" => .node (.call "ActorSelf" [])
  | "BuffId" => .text "Burn"
  | "Duration" => .number 2.5
  | _ => .bool true

theorem burn_suits : ∀ f ∈ addBuff.fields, (burn f).Suits .standard f := by
  intro f member
  have fits : ∀ f ∈ addBuff.fields,
      f.kind.isArray = false ∧ (burn f).fits .standard f.kind = true := by decide +kernel
  obtain ⟨scalar, fit⟩ := fits f member
  exact Value.suits_iff_keptBy.2 (.single scalar ((Value.fits_iff_has _ _).1 fit))

/-- A burn with a duration that says nothing about refreshing. -/
theorem parseGraph_spellGraph_present_duration :
    let n : Node := .call "ActionAddBuff" [("Target", .node (.call "ActorSelf" [])),
      ("BuffId", .text "Burn"), ("Duration", .number 2.5)]
    Compiler.parseGraph ⟨.standard, .none⟩ (Compiler.spellGraph ⟨.standard, .none⟩ n) = .ok n :=
  (parseGraph_spellGraph_present .standard addBuff (by decide +kernel) (by decide)
    (·.key ≠ "Refresh") (by decide) burn fun f member _ => burn_suits f member).1 (by decide)

def Node.keys : Node → List String
  | .call _ fields => fields.map Prod.fst
  | _ => []

/-- Without the duration, the answer whether to refresh is taken for the duration. -/
theorem parseGraph_spellGraph_present_refresh :
    addBuff ∈ Registry.standard.atoms ∧ OptionalLast addBuff.fields ∧
      (∀ f ∈ addBuff.fields, (burn f).Suits .standard f) ∧
      let n : Node := .call addBuff.tag
        (storedFields burn (addBuff.fields.filter (·.key ≠ "Duration")))
      Compiler.spellGraph ⟨.standard, .none⟩ n = "AddBuff(Self(), \"Burn\", true)" ∧
        n.keys = ["Target", "BuffId", "Refresh"] ∧
        ∃ m, Compiler.parseGraph ⟨.standard, .none⟩
            (Compiler.spellGraph ⟨.standard, .none⟩ n) = .ok m ∧
          m.keys = ["Target", "BuffId", "Duration"] ∧ m ≠ n := by
  refine ⟨by decide +kernel, by decide, burn_suits, ?_⟩
  intro n
  have spelled : Compiler.spellGraph ⟨.standard, .none⟩ n = "AddBuff(Self(), \"Burn\", true)" := by
    decide +kernel
  have held : n.keys = ["Target", "BuffId", "Refresh"] := by decide
  obtain ⟨m, parsed, read⟩ := map_eq_ok_iff.1
    (show (Compiler.parseGraph ⟨.standard, .none⟩ "AddBuff(Self(), \"Burn\", true)").map
      Node.keys = .ok ["Target", "BuffId", "Duration"] by decide +kernel)
  refine ⟨spelled, held, m, spelled ▸ parsed, read, ?_⟩
  rintro rfl
  exact absurd (held.symm.trans read) (by decide)

end SkillGraph
