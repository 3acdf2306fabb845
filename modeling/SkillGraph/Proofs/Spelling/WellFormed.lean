import SkillGraph.Compiler
import SkillGraph.Proofs.Atom.Storage
import SkillGraph.Proofs.Lexeme.Names
import SkillGraph.Proofs.Number.Numerals

/-! Graphs that have an expression. A call must hold what a call with arguments would have stored:
its fields without a gap and every value in the form that its field keeps. -/
namespace SkillGraph

def Kind.keeps (kind : Kind) (n : Node) : Bool :=
  match kind, n with
  | .number, .constant _ key | .number, .negate (.constant _ key) => key ≠ ""
  | .bool, .boolean _ => false
  | _, _ => true

/-- The number of arguments that a field took for its value. -/
def Value.count : Value → Nat
  | .list items => items.length
  | _ => 1

def argumentCount (fields : List (String × Value)) : Nat := (fields.map (·.2.count)).sum

@[simp] theorem argumentCount_cons (key : String) (v : Value) (rest : List (String × Value)) :
    argumentCount ((key, v) :: rest) = v.count + argumentCount rest := rfl

mutual

/-- Whether the node has an expression that reads back as the same node. -/
def Node.wellFormed (r : Registry) : Node → Bool
  | .constant x key =>
    if key = "" then Number.isUnsigned x else x = 0.0 && key.toList.all Text.isWord
  | .boolean _ => true
  | .negate operand | .not operand => operand.wellFormed r
  | .operation group code left right =>
    (group.operator? code).isSome && left.wellFormed r && right.wellFormed r
  | .call tag fields =>
    match r.atomTagged? tag with
    | some a => a.leastArguments ≤ argumentCount fields && fieldsFit r a.fields fields
    | none => false

/-- Whether the value is in the form in which a field of this kind keeps one argument. -/
def Value.fits (r : Registry) (kind : Kind) : Value → Bool
  | .number x => kind = .number && !x.isNaN
  | .bool _ => kind = .bool
  | .text s => decide (Lexeme.Quotable s.toList)
  | .node n => n.wellFormed r && kind.keeps n
  | .list _ => false

def itemsFit (r : Registry) (kind : Kind) : List Value → Bool
  | [] => true
  | item :: rest => item.fits r kind && itemsFit r kind rest

/-- Whether the stored fields are the first ones of the atom, in order. Only scalar fields and an
optional array may be left out behind them. -/
def fieldsFit (r : Registry) : List Field → List (String × Value) → Bool
  | [], [] => true
  | f :: _, [] => !f.kind.isArray || f.optional
  | [], _ :: _ => false
  | f :: rest, (key, .list items) :: more =>
    f.kind.isArray && key = f.key && !items.isEmpty && itemsFit r f.kind items &&
      fieldsFit r rest more
  | f :: rest, (key, v) :: more =>
    !f.kind.isArray && key = f.key && v.fits r f.kind && fieldsFit r rest more

end

section

variable {r : Registry} {kind : Kind}

theorem Node.cases_of_wellFormed_constant {x : Float} {key : String}
    (fine : (Node.constant x key).wellFormed r = true) :
    (key = "" ∧ Number.isUnsigned x = true) ∨
      key ≠ "" ∧ x = 0.0 ∧ key.toList.all Text.isWord = true := by
  by_cases unbound : key = ""
  · exact .inl ⟨unbound, by simpa [wellFormed, unbound] using fine⟩
  · exact .inr ⟨unbound, by simpa [wellFormed, unbound] using fine⟩

theorem Node.of_wellFormed_operation {group : OpGroup} {code : UInt8} {left right : Node}
    (fine : (Node.operation group code left right).wellFormed r = true) :
    (group.operator? code).isSome = true ∧ left.wellFormed r = true ∧
      right.wellFormed r = true := by
  simpa [wellFormed, and_assoc] using fine

theorem Node.of_wellFormed_call {tag : String} {fields : List (String × Value)}
    (fine : (Node.call tag fields).wellFormed r = true) :
    ∃ a ∈ r.atoms, a.tag = tag ∧ r.atomTagged? tag = some a ∧
      a.leastArguments ≤ argumentCount fields ∧ fieldsFit r a.fields fields = true := by
  cases found : r.atomTagged? tag with
  | none => simp [wellFormed, found] at fine
  | some a =>
    obtain ⟨member, same⟩ := Registry.atomTagged?_eq_some_iff.1 found
    exact ⟨a, member, same, rfl, by simpa [wellFormed, found] using fine⟩

theorem Value.of_fits_number {x : Float} (fits : (Value.number x).fits r kind = true) :
    kind = .number ∧ x.isNaN = false := by
  simpa [Value.fits] using fits

theorem Value.of_fits_node {n : Node} (fits : (Value.node n).fits r kind = true) :
    n.wellFormed r = true ∧ kind.keeps n = true := by
  simpa [Value.fits] using fits

theorem of_itemsFit_cons {item : Value} {rest : List Value}
    (fit : itemsFit r kind (item :: rest) = true) :
    item.fits r kind = true ∧ itemsFit r kind rest = true := by
  simpa [itemsFit] using fit

end

theorem fieldsFit_cons_cons {r : Registry} {f : Field} {rest : List Field} {key : String}
    {v : Value} {more : List (String × Value)}
    (fit : fieldsFit r (f :: rest) ((key, v) :: more) = true) :
    key = f.key ∧ fieldsFit r rest more = true ∧
      ((∃ items, v = .list items ∧ f.kind.isArray = true ∧ items ≠ [] ∧
          itemsFit r f.kind items = true) ∨
        f.kind.isArray = false ∧ v.fits r f.kind = true) := by
  cases v with
  | list items =>
    obtain ⟨⟨⟨⟨array, same⟩, some⟩, inside⟩, later⟩ :
        (((f.kind.isArray = true ∧ key = f.key) ∧ items ≠ []) ∧ itemsFit r f.kind items = true) ∧
          fieldsFit r rest more = true := by
      simpa [fieldsFit] using fit
    exact ⟨same, later, .inl ⟨items, rfl, array, some, inside⟩⟩
  | _ =>
    simp only [fieldsFit, Bool.and_eq_true, Bool.not_eq_true', decide_eq_true_eq] at fit
    obtain ⟨⟨⟨scalar, same⟩, inside⟩, later⟩ := fit
    exact ⟨same, later, .inr ⟨scalar, inside⟩⟩

theorem fieldsFit_scalar {r : Registry} {f : Field} {fs : List Field} {v : Value}
    {more : List (String × Value)} (scalar : f.kind.isArray = false)
    (kept : v.fits r f.kind = true) (fit : fieldsFit r fs more = true) :
    fieldsFit r (f :: fs) ((f.key, v) :: more) = true := by
  cases v with
  | list items => simp [Value.fits] at kept
  | _ => simp [fieldsFit, scalar, kept, fit]

theorem fieldsFit_array {r : Registry} {f : Field} {fs : List Field} {items : List Value}
    {more : List (String × Value)} (array : f.kind.isArray = true) (some : items ≠ [])
    (inside : itemsFit r f.kind items = true) (fit : fieldsFit r fs more = true) :
    fieldsFit r (f :: fs) ((f.key, .list items) :: more) = true := by
  simp [fieldsFit, array, some, inside, fit]

section

variable {r : Registry}

mutual

/-- Well-formed nodes hold no NaN, so each one equals itself. -/
theorem Node.same_self (n : Node) (fine : n.wellFormed r = true) : n.same n = true := by
  match n with
  | .constant x key =>
    have number : (x == x) = true := by
      rcases Node.cases_of_wellFormed_constant fine with ⟨-, unsigned⟩ | ⟨-, rfl, -⟩
      · exact Number.beq_self (Number.isNaN_of_isUnsigned unsigned)
      · exact Number.beq_self (by decide)
    simp [Node.same, number]
  | .boolean b => simp [Node.same]
  | .negate operand => simpa [Node.same] using operand.same_self fine
  | .not operand => simpa [Node.same] using operand.same_self fine
  | .operation group code left right =>
    obtain ⟨-, low, high⟩ := Node.of_wellFormed_operation fine
    simp [Node.same, left.same_self low, right.same_self high]
  | .call tag fields =>
    obtain ⟨a, -, -, -, -, fit⟩ := Node.of_wellFormed_call fine
    simp [Node.same, sameFields_self a.fields fields fit]

theorem Value.same_self (kind : Kind) (v : Value) (fits : v.fits r kind = true) :
    v.same v = true := by
  match v with
  | .number x =>
    obtain ⟨-, notNaN⟩ := Value.of_fits_number fits
    simpa [Value.same] using Number.beq_self notNaN
  | .bool b => simp [Value.same]
  | .text s => simp [Value.same]
  | .node n =>
    simpa [Value.same] using n.same_self (Value.of_fits_node fits).1
  | .list items => simp [Value.fits] at fits

theorem sameItems_self (kind : Kind) (items : List Value) (fit : itemsFit r kind items = true) :
    sameItems items items = true := by
  match items with
  | [] => simp [sameItems]
  | item :: rest =>
    obtain ⟨first, others⟩ := of_itemsFit_cons fit
    simp [sameItems, item.same_self kind first, sameItems_self kind rest others]

theorem sameFields_self (fs : List Field) (fields : List (String × Value))
    (fit : fieldsFit r fs fields = true) : sameFields fields fields = true := by
  match fs, fields with
  | _, [] => simp [sameFields]
  | [], field :: more => simp [fieldsFit] at fit
  | f :: rest, (key, v) :: more =>
    obtain ⟨-, later, ⟨items, rfl, -, -, inside⟩ | ⟨-, inside⟩⟩ := fieldsFit_cons_cons fit
    · have first := sameItems_self f.kind items inside
      simp [sameFields, Value.same, first, sameFields_self rest more later]
    · simp [sameFields, v.same_self f.kind inside, sameFields_self rest more later]

end

end

namespace Field

variable {f : Field}

theorem store_number (kind : f.kind = .number) (v : Value) : f.store v = v.bareNumber := by
  rw [store, kind]

@[simp] theorem store_text (f : Field) (s : String) : f.store (.text s) = .text s :=
  store_eq_self fun _ converts => nomatch converts

/-- A field keeps the nodes that it does not unwrap: numbers, negated numbers and booleans. -/
theorem keeps_eq_true_iff {n : Node} :
    f.kind.keeps n = true ↔ ∀ v, ¬f.Converts (.node n) v := by
  constructor
  · intro keeps v converts
    cases converts with
    | number kind x | negated kind x => simp [kind, Kind.keeps, Node.literal] at keeps
    | bool kind b => simp [kind, Kind.keeps] at keeps
  · intro kept
    unfold Kind.keeps
    split
    case h_1 kind =>
      rw [decide_eq_true_iff]
      rintro rfl
      exact kept _ (.number kind _)
    case h_2 kind =>
      rw [decide_eq_true_iff]
      rintro rfl
      exact kept _ (.negated kind _)
    case h_3 kind => exact (kept _ (.bool kind _)).elim
    case h_4 => rfl

theorem store_node {n : Node} (keeps : f.kind.keeps n = true) :
    f.store (.node n) = .node n :=
  store_eq_self (keeps_eq_true_iff.1 keeps)

end Field

end SkillGraph
