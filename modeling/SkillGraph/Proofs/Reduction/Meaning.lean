import SkillGraph.Proofs.Atom.Storage
import SkillGraph.Reduction

/-! The meaning of graphs. Operators mean the operations on doubles and booleans; what bound
constants and calls mean is left to an interpretation. Folding keeps the meaning of a node, and a
field that stores an argument keeps the meaning of the argument. -/
namespace SkillGraph

universe u

/-- What a node or a field may mean. Apart from literals these are things of a type `α`. -/
inductive Meaning (α : Type u) where
  | number (x : Float)
  | bool (b : Bool)
  | text (s : String)
  | list (items : List (Meaning α))
  | thing (a : α)

structure Interpretation (α : Type u) where
  bound : (key : String) → Meaning α
  call : (tag : String) → (fields : List (String × Meaning α)) → Meaning α
  /-- An operator on operands that it has no operation for. -/
  mistyped : Operator → List (Meaning α) → Meaning α
  /-- An operation whose code stands for no operator. -/
  unknown : OpGroup → (code : UInt8) → Meaning α → Meaning α → Meaning α

def Arithmetic.value (op : Arithmetic) (x y : Float) : Float :=
  match op with
  | .add => x + y
  | .sub => x - y
  | .mul => x * y
  | .div => x / y
  | .mod => Number.remainder x y

namespace Interpretation

variable {α : Type u} (I : Interpretation α)

def negation : Meaning α → Meaning α
  | .number x => .number (-x)
  | m => I.mistyped .negate [m]

def complement : Meaning α → Meaning α
  | .bool b => .bool (!b)
  | m => I.mistyped .not [m]

/-- Arithmetic and order are of doubles, logic is of booleans, and both may be equal or not. -/
def operation (op : BinaryOp) (left right : Meaning α) : Meaning α :=
  match op, left, right with
  | .arithmetic op, .number x, .number y => .number (op.value x y)
  | .logic op, .bool a, .bool b => .bool (op.compute a b)
  | .comparison op, .number x, .number y => .bool (op.holds x y)
  | .comparison .eq, .bool a, .bool b => .bool (a == b)
  | .comparison .ne, .bool a, .bool b => .bool (a != b)
  | op, left, right => I.mistyped (.binary op) [left, right]

end Interpretation

section

variable {α : Type u} (I : Interpretation α)

mutual

def Node.meaning : Node → Meaning α
  | .constant x key => if key = "" then .number x else I.bound key
  | .boolean b => .bool b
  | .negate operand => I.negation operand.meaning
  | .not operand => I.complement operand.meaning
  | .operation group code left right =>
    match group.operator? code with
    | some op => I.operation op left.meaning right.meaning
    | none => I.unknown group code left.meaning right.meaning
  | .call tag fields => I.call tag (fieldMeanings fields)

def Value.meaning : Value → Meaning α
  | .number x => .number x
  | .bool b => .bool b
  | .text s => .text s
  | .node n => n.meaning
  | .list items => .list (itemMeanings items)

def itemMeanings : List Value → List (Meaning α)
  | [] => []
  | item :: rest => item.meaning :: itemMeanings rest

def fieldMeanings : List (String × Value) → List (String × Meaning α)
  | [] => []
  | (key, value) :: rest => (key, value.meaning) :: fieldMeanings rest

end

end

variable {α : Type u} {I : Interpretation α} {n m left right : Node}

theorem Arithmetic.value_of_compute? {op : Arithmetic} {x y z : Float}
    (computed : op.compute? x y = some z) : z = op.value x y := by
  cases op with
  | add | sub | mul => exact (Option.some.inj computed).symm
  | div | mod =>
    obtain ⟨-, same⟩ := Option.ite_none_right_eq_some.1 computed
    exact (Option.some.inj same).symm

namespace Node

@[simp] theorem meaning_literal (x : Float) : (literal x).meaning I = .number x := by
  simp [literal, meaning]

@[simp] theorem meaning_boolean (b : Bool) : (boolean b).meaning I = .bool b := by
  simp [meaning]

@[simp] theorem meaning_binary (op : BinaryOp) :
    (binary op left right).meaning I = I.operation op (left.meaning I) (right.meaning I) := by
  simp [binary, meaning, BinaryOp.operator?_code]

theorem eq_boolean_of_plainBool? {b : Bool} (plain : n.plainBool? = some b) : n = boolean b := by
  cases n with
  | boolean c => rw [Option.some.inj plain]
  | _ => cases plain

end Node

inductive BinaryOp.Folds : BinaryOp → Node → Node → Node → Prop where
  | arithmetic {op : Arithmetic} {x y z : Float} (computed : op.compute? x y = some z) :
    Folds (.arithmetic op) (.literal x) (.literal y) (.literal z)
  | logic (op : Logic) (a b : Bool) :
    Folds (.logic op) (.boolean a) (.boolean b) (.boolean (op.compute a b))
  | numbers (op : Comparison) (x y : Float) :
    Folds (.comparison op) (.literal x) (.literal y) (.boolean (op.holds x y))
  | booleans {op : Comparison} {a b c : Bool} (computed : op.holdsOfBools? a b = some c) :
    Folds (.comparison op) (.boolean a) (.boolean b) (.boolean c)

theorem BinaryOp.folds_of_fold? {op : BinaryOp} (folded : op.fold? left right = some m) :
    op.Folds left right m := by
  cases op with
  | arithmetic op =>
    obtain ⟨x, first, folded⟩ := Option.bind_eq_some_iff.1 folded
    obtain ⟨y, second, folded⟩ := Option.bind_eq_some_iff.1 folded
    obtain ⟨z, computed, rfl⟩ := Option.map_eq_some_iff.1 folded
    obtain rfl := Node.plainNumber?_eq_some_iff.1 first
    obtain rfl := Node.plainNumber?_eq_some_iff.1 second
    exact .arithmetic computed
  | logic op =>
    obtain ⟨a, first, folded⟩ := Option.bind_eq_some_iff.1 folded
    obtain ⟨b, second, folded⟩ := Option.bind_eq_some_iff.1 folded
    obtain rfl := Option.some.inj folded
    obtain rfl := Node.eq_boolean_of_plainBool? first
    obtain rfl := Node.eq_boolean_of_plainBool? second
    exact .logic op a b
  | comparison op =>
    unfold fold? at folded
    dsimp only at folded
    split at folded
    case h_1 x y first second =>
      obtain rfl := Option.some.inj folded
      obtain rfl := Node.plainNumber?_eq_some_iff.1 first
      obtain rfl := Node.plainNumber?_eq_some_iff.1 second
      exact .numbers op x y
    case h_2 =>
      obtain ⟨a, first, folded⟩ := Option.bind_eq_some_iff.1 folded
      obtain ⟨b, second, folded⟩ := Option.bind_eq_some_iff.1 folded
      obtain ⟨c, computed, rfl⟩ := Option.map_eq_some_iff.1 folded
      obtain rfl := Node.eq_boolean_of_plainBool? first
      obtain rfl := Node.eq_boolean_of_plainBool? second
      exact .booleans computed

theorem BinaryOp.Folds.meaning {op : BinaryOp} (folds : op.Folds left right m) :
    m.meaning I = I.operation op (left.meaning I) (right.meaning I) := by
  cases folds with
  | arithmetic computed =>
    simp [Interpretation.operation, Arithmetic.value_of_compute? computed]
  | logic | numbers => simp [Interpretation.operation]
  | @booleans op a b c computed =>
    cases op with
    | eq | ne =>
      obtain rfl := Option.some.inj computed
      simp [Interpretation.operation]
    | _ => cases computed

theorem Node.meaning_of_fold? (folded : n.fold? = some m) : m.meaning I = n.meaning I := by
  cases n with
  | negate operand =>
    obtain ⟨x, plain, rfl⟩ := Option.map_eq_some_iff.1 folded
    obtain rfl := plainNumber?_eq_some_iff.1 plain
    rw [meaning_literal, meaning, meaning_literal]
    rfl
  | not operand =>
    obtain ⟨b, plain, rfl⟩ := Option.map_eq_some_iff.1 folded
    obtain rfl := eq_boolean_of_plainBool? plain
    rw [meaning_boolean, meaning, meaning_boolean]
    rfl
  | operation group code left right =>
    obtain ⟨op, known, folded⟩ := Option.bind_eq_some_iff.1 folded
    rw [(BinaryOp.folds_of_fold? folded).meaning, meaning, known]
  | _ => cases folded

theorem Field.Converts.meaning_eq {f : Field} {v w : Value} (converts : f.Converts v w) :
    w.meaning I = v.meaning I := by
  cases converts with
  | negated kind x =>
    rw [Value.meaning, Value.meaning, Node.meaning, Node.meaning_literal]
    rfl
  | number | numeric => rw [Value.meaning, Value.meaning, Node.meaning_literal]
  | bool | boolean => rw [Value.meaning, Value.meaning, Node.meaning_boolean]

theorem Field.meaning_store (f : Field) (v : Value) : (f.store v).meaning I = v.meaning I := by
  rcases store_eq_iff.1 (rfl : f.store v = f.store v) with converts | ⟨same, -⟩
  · exact converts.meaning_eq
  · rw [same]

namespace Reduction

/-- What a node is reduced to means the same. -/
def Faithful (I : Interpretation α) (red : Reduction) : Prop :=
  ∀ n m : Node, red.reduce? n = some m → m.meaning I = n.meaning I

theorem faithful_none : Faithful I none := fun _ _ reduced => nomatch reduced

theorem faithful_constant : Faithful I constant := fun _ _ folded => Node.meaning_of_fold? folded

theorem Faithful.meaning_apply {red : Reduction} (faithful : Faithful I red) (n : Node) :
    (red.apply n).meaning I = n.meaning I := by
  unfold apply
  cases reduced : red.reduce? n with
  | none => rfl
  | some m => exact faithful n m reduced

end Reduction

end SkillGraph
