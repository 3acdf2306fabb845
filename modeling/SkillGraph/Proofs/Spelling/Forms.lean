import SkillGraph.Proofs.Spelling.WellFormed

/-! Forms of graphs. A form says which numbers, texts and operations a graph may hold. The shape of
the graph is always that of stored calls: the fields of an atom without a gap, each with a value as
the field keeps it. Well-formed graphs are those of one form. -/
namespace SkillGraph

structure Form where
  /-- The values of unbound constants. -/
  literal : Float → Prop
  /-- The plain numbers in fields. -/
  number : Float → Prop
  text : String → Prop
  /-- Every operation, together with its operands. -/
  operation : Node → Prop

namespace Form

def spelled : Form where
  literal x := Number.isUnsigned x = true
  number x := x.isNaN = false
  text s := Lexeme.Quotable s.toList
  operation _ := True

@[simp] theorem spelled_literal {x : Float} :
    spelled.literal x ↔ Number.isUnsigned x = true := Iff.rfl

@[simp] theorem spelled_number {x : Float} : spelled.number x ↔ x.isNaN = false := Iff.rfl

@[simp] theorem spelled_text {s : String} : spelled.text s ↔ Lexeme.Quotable s.toList := Iff.rfl

@[simp] theorem spelled_operation (n : Node) : spelled.operation n := trivial

/-- The same form with any text in place of those that it names. -/
def freed (F : Form) : Form := { F with text := fun _ => True }

end Form

mutual

def Node.Has (r : Registry) (F : Form) : Node → Prop
  | .constant x key => if key = "" then F.literal x else x = 0.0 ∧ key.toList.all Text.isWord = true
  | .boolean _ => True
  | .negate operand => F.operation (.negate operand) ∧ operand.Has r F
  | .not operand => F.operation (.not operand) ∧ operand.Has r F
  | .operation group code left right =>
    F.operation (.operation group code left right) ∧ (group.operator? code).isSome = true ∧
      left.Has r F ∧ right.Has r F
  | .call tag fields => ∃ a, r.atomTagged? tag = some a ∧
      a.leastArguments ≤ argumentCount fields ∧ FieldsHave r F a.fields fields

/-- What a field of this kind stores for one argument. -/
def Value.Has (r : Registry) (F : Form) (kind : Kind) : Value → Prop
  | .number x => kind = .number ∧ F.number x
  | .bool _ => kind = .bool
  | .text s => F.text s
  | .node n => n.Has r F ∧ kind.keeps n = true
  | .list _ => False

def ItemsHave (r : Registry) (F : Form) (kind : Kind) : List Value → Prop
  | [] => True
  | item :: rest => item.Has r F kind ∧ ItemsHave r F kind rest

def FieldsHave (r : Registry) (F : Form) : List Field → List (String × Value) → Prop
  | [], [] => True
  | f :: _, [] => f.kind.isArray = true → f.optional = true
  | [], _ :: _ => False
  | f :: rest, (key, .list items) :: more =>
    key = f.key ∧ (f.kind.isArray = true ∧ items ≠ [] ∧ ItemsHave r F f.kind items) ∧
      FieldsHave r F rest more
  | f :: rest, (key, v) :: more =>
    key = f.key ∧ (f.kind.isArray = false ∧ v.Has r F f.kind) ∧ FieldsHave r F rest more

end

/-- What a field holds: an array field some items, any other one a single value. -/
def Value.KeptBy (r : Registry) (F : Form) (f : Field) : Value → Prop
  | .list items => f.kind.isArray = true ∧ items ≠ [] ∧ ItemsHave r F f.kind items
  | v => f.kind.isArray = false ∧ v.Has r F f.kind

variable {r : Registry} {F : Form}

theorem fieldsHave_cons_cons {f : Field} {rest : List Field} {key : String} {v : Value}
    {more : List (String × Value)} :
    FieldsHave r F (f :: rest) ((key, v) :: more) ↔
      key = f.key ∧ v.KeptBy r F f ∧ FieldsHave r F rest more := by
  cases v <;> exact Iff.rfl

theorem Value.KeptBy.cases {f : Field} {v : Value} (kept : v.KeptBy r F f) :
    (∃ items, v = .list items ∧ f.kind.isArray = true ∧ items ≠ [] ∧
        ItemsHave r F f.kind items) ∨
      f.kind.isArray = false ∧ v.Has r F f.kind := by
  cases v with
  | list items => exact .inl ⟨items, rfl, kept⟩
  | _ => exact .inr kept

theorem Value.KeptBy.single {f : Field} {v : Value} (scalar : f.kind.isArray = false)
    (has : v.Has r F f.kind) : v.KeptBy r F f := by
  cases v with
  | list items => exact has.elim
  | _ => exact ⟨scalar, has⟩

theorem Value.KeptBy.count {f : Field} {v : Value} (kept : v.KeptBy r F f)
    (scalar : f.kind.isArray = false) : v.count = 1 := by
  cases v with
  | list items => exact absurd kept.1 (Bool.eq_false_iff.1 scalar)
  | _ => rfl

theorem Node.Has.literal {x : Float} (has : F.literal x) : (Node.literal x).Has r F := by
  simpa [Node.literal, Node.Has] using has

theorem Node.Has.bound {key : String} (some : key ≠ "")
    (word : key.toList.all Text.isWord = true) : (Node.bound key).Has r F := by
  rw [Node.bound, Node.Has, if_neg some]
  exact ⟨rfl, word⟩

theorem Node.cases_of_has_constant {x : Float} {key : String}
    (has : (Node.constant x key).Has r F) :
    (key = "" ∧ F.literal x) ∨ key ≠ "" ∧ x = 0.0 ∧ key.toList.all Text.isWord = true := by
  by_cases unbound : key = ""
  · exact .inl ⟨unbound, by simpa [Node.Has, unbound] using has⟩
  · exact .inr ⟨unbound, by simpa [Node.Has, unbound] using has⟩

theorem Node.of_has_call {tag : String} {fields : List (String × Value)}
    (has : (Node.call tag fields).Has r F) :
    ∃ a ∈ r.atoms, a.tag = tag ∧ r.atomTagged? tag = some a ∧
      a.leastArguments ≤ argumentCount fields ∧ FieldsHave r F a.fields fields := by
  obtain ⟨a, found, enough, have'⟩ := has
  obtain ⟨member, same⟩ := Registry.atomTagged?_eq_some_iff.1 found
  exact ⟨a, member, same, found, enough, have'⟩

def Hold (r : Registry) (F : Form) : List Field → List (String × Value) → Prop :=
  List.Forall₂ fun f p => p.1 = f.key ∧ p.2.KeptBy r F f

/-- Stored fields are the first ones of the atom, and no required array comes next. -/
theorem exists_hold_of_fieldsHave {fs : List Field} {fields : List (String × Value)}
    (inside : FieldsHave r F fs fields) :
    ∃ held absent, fs = held ++ absent ∧ Hold r F held fields ∧
      ∀ f ∈ absent.head?, f.kind.isArray = true → f.optional = true := by
  induction fields generalizing fs with
  | nil =>
    refine ⟨[], fs, rfl, .nil, ?_⟩
    intro f member
    cases fs with
    | nil => cases member
    | cons g rest =>
      cases member
      exact inside
  | cons field more ih =>
    cases fs with
    | nil => exact inside.elim
    | cons f rest =>
      obtain ⟨same, kept, later⟩ := fieldsHave_cons_cons.1 inside
      obtain ⟨held, absent, rfl, hold, next⟩ := ih later
      exact ⟨f :: held, absent, rfl, .cons ⟨same, kept⟩ hold, next⟩

mutual

/-- The well-formed graphs are those of the form that is spelled. -/
theorem Node.wellFormed_iff_has (n : Node) : n.wellFormed r = true ↔ n.Has r .spelled := by
  match n with
  | .constant x key => by_cases unbound : key = "" <;> simp [Node.wellFormed, Node.Has, unbound]
  | .boolean b => simp [Node.wellFormed, Node.Has]
  | .negate operand | .not operand =>
    simp [Node.wellFormed, Node.Has, ← operand.wellFormed_iff_has]
  | .operation group code left right =>
    simp [Node.wellFormed, Node.Has, and_assoc, ← left.wellFormed_iff_has,
      ← right.wellFormed_iff_has]
  | .call tag fields =>
    cases found : r.atomTagged? tag with
    | none => simp [Node.wellFormed, Node.Has, found]
    | some a => simp [Node.wellFormed, Node.Has, found, ← fieldsFit_iff_have a.fields fields]

theorem Value.fits_iff_has (kind : Kind) (v : Value) :
    v.fits r kind = true ↔ v.Has r .spelled kind := by
  match v with
  | .number x | .bool _ | .text _ | .list _ => simp [Value.fits, Value.Has]
  | .node n => simp [Value.fits, Value.Has, ← n.wellFormed_iff_has]

theorem itemsFit_iff_have (kind : Kind) (items : List Value) :
    itemsFit r kind items = true ↔ ItemsHave r .spelled kind items := by
  match items with
  | [] => simp [itemsFit, ItemsHave]
  | item :: rest =>
    simp [itemsFit, ItemsHave, ← item.fits_iff_has kind, ← itemsFit_iff_have kind rest]

theorem fieldsFit_iff_have (fs : List Field) (fields : List (String × Value)) :
    fieldsFit r fs fields = true ↔ FieldsHave r .spelled fs fields := by
  match fs, fields with
  | [], [] => simp [fieldsFit, FieldsHave]
  | f :: _, [] => cases array : f.kind.isArray <;> simp [fieldsFit, FieldsHave, array]
  | [], _ :: _ => simp [fieldsFit, FieldsHave]
  | f :: rest, (key, v) :: more =>
    have others := fieldsFit_iff_have rest more
    rw [fieldsHave_cons_cons]
    constructor
    · intro fit
      obtain ⟨rfl, later, ⟨items, rfl, array, some, inside⟩ | ⟨scalar, inside⟩⟩ :=
        fieldsFit_cons_cons fit
      · exact ⟨rfl, ⟨array, some, (itemsFit_iff_have f.kind items).1 inside⟩, others.1 later⟩
      · exact ⟨rfl, .single scalar ((v.fits_iff_has f.kind).1 inside), others.1 later⟩
    · rintro ⟨rfl, kept, later⟩
      rcases kept.cases with ⟨items, rfl, array, some, inside⟩ | ⟨scalar, inside⟩
      · exact fieldsFit_array array some ((itemsFit_iff_have f.kind items).2 inside)
          (others.2 later)
      · exact fieldsFit_scalar scalar ((v.fits_iff_has f.kind).2 inside) (others.2 later)

end

end SkillGraph
