import SkillGraph.Node

/-! Reductions: what becomes of an operation as soon as it is built. Constants may be folded; a node
that does not reduce stays as written. -/
namespace SkillGraph

structure Reduction where
  name : String
  /-- A simpler node of the same meaning, if there is one. -/
  reduce? : Node → Option Node

namespace Arithmetic

/-- The result of the operation, which division and remainder by zero do not have. -/
def compute? (op : Arithmetic) (x y : Float) : Option Float :=
  match op with
  | .add => some (x + y)
  | .sub => some (x - y)
  | .mul => some (x * y)
  | .div => if y != 0.0 then some (x / y) else none
  | .mod => if y != 0.0 then some (Number.remainder x y) else none

end Arithmetic

namespace Logic

def compute (op : Logic) (a b : Bool) : Bool :=
  match op with
  | .and => a && b
  | .or => a || b

end Logic

namespace Comparison

def holds (op : Comparison) (x y : Float) : Bool :=
  match op with
  | .ge => y ≤ x
  | .gt => y < x
  | .le => x ≤ y
  | .lt => x < y
  | .eq => x == y
  | .ne => x != y

/-- Booleans are equal or not; they have no order. -/
def holdsOfBools? (op : Comparison) (a b : Bool) : Option Bool :=
  match op with
  | .eq => some (a == b)
  | .ne => some (a != b)
  | _ => none

end Comparison

namespace BinaryOp

def fold? (op : BinaryOp) (left right : Node) : Option Node :=
  match op with
  | .arithmetic op => do
    let x ← left.plainNumber?
    let y ← right.plainNumber?
    (op.compute? x y).map .literal
  | .logic op => do
    let a ← left.plainBool?
    let b ← right.plainBool?
    return .boolean (op.compute a b)
  | .comparison op =>
    match left.plainNumber?, right.plainNumber? with
    | some x, some y => some (.boolean (op.holds x y))
    | _, _ => do
      let a ← left.plainBool?
      let b ← right.plainBool?
      (op.holdsOfBools? a b).map .boolean

end BinaryOp

def Node.fold? : Node → Option Node
  | .negate operand => operand.plainNumber?.map fun x => .literal (-x)
  | .not operand => operand.plainBool?.map fun b => .boolean (!b)
  | .operation group code left right => do (← group.operator? code).fold? left right
  | _ => none

namespace Reduction

def none : Reduction := ⟨"none", fun _ => .none⟩

def constant : Reduction := ⟨"constant", Node.fold?⟩

def apply (red : Reduction) (n : Node) : Node := (red.reduce? n).getD n

end Reduction

end SkillGraph
