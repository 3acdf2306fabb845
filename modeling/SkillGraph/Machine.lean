import SkillGraph.Atom.Instance
import SkillGraph.Literal
import SkillGraph.Program
import SkillGraph.Reduction
import SkillGraph.Registry.Help
import SkillGraph.Spelling

/-! The stack machine that runs postfix programs and builds graphs. Operators take their operands
from the stack, and a call takes everything above its marker. -/
namespace SkillGraph

namespace Machine

inductive Item where
  | value (v : Value)
  | marker

/-- The top of the stack comes first. -/
abbrev Stack := List Item

def takeOperand (op : Operator) : Stack → Except Cause (Node × Stack)
  | .value (.node n) :: rest => .ok (n, rest)
  | .value bare :: _ => .error (.invalidOperand op.symbol bare.brief)
  | .marker :: _ | [] => .error (.missingOperand op.symbol)

/-- The operation on the operands that lie on top, the right one above the left one. -/
def applyOperator (op : Operator) (stack : Stack) : Except Cause (Node × Stack) := do
  let (right, rest) ← takeOperand op stack
  match op with
  | .negate => return (.negate right, rest)
  | .not => return (.not right, rest)
  | .binary binary =>
    let (left, rest) ← takeOperand op rest
    return (.binary binary left right, rest)

/-- The values above the nearest marker, lowest first, before those already taken. -/
def takeArguments (taken : List Value) : Stack → Option (List Value × Stack)
  | [] => none
  | .marker :: rest => some (taken, rest)
  | .value v :: rest => takeArguments (v :: taken) rest

def applyCall (r : Registry) (name : String) (stack : Stack) : Except Cause (Node × Stack) := do
  let some (args, rest) := takeArguments [] stack | throw (.mismatchedParens (some name))
  let some a := r.atomCalled? name | throw (.leftoverTokens [name] none)
  return (← a.instantiate args, rest)

def step (r : Registry) (red : Reduction) (stack : Stack) : Instruction → Except Cause Stack
  | .operand word => .ok (.value (Literal.value word) :: stack)
  | .marker => .ok (.marker :: stack)
  | .operator op => do
    let (n, rest) ← applyOperator op stack
    return .value (.node (red.apply n)) :: rest
  | .call name => do
    let (n, rest) ← applyCall r name stack
    return .value (.node n) :: rest

def Item.shown (r : Registry) : Item → String
  | .value (.text s) => s
  | .value v => v.spell r
  | .marker => "("

/-- The first text among the items is taken for the name of an unknown call. -/
def unknownName? (items : List Item) : Option String :=
  items.findSome? fun
    | .value v => v.text?
    | .marker => none

def leftover (r : Registry) (items : List Item) : Cause :=
  let guess := (unknownName? items).bind fun name =>
    (r.suggestions name).head?.map (name, ·)
  .leftoverTokens (items.map (·.shown r)) guess

def result (r : Registry) : Stack → Except Cause Value
  | [] => .error .emptyExpression
  | [.value v] => .ok v
  | [.marker] => .error (.mismatchedParens none)
  | stack => .error (leftover r stack.reverse)

def exec (r : Registry) (red : Reduction) (program : Program) (stack : Stack) :
    Except Cause Stack :=
  program.foldlM (step r red) stack

end Machine

def Program.run (r : Registry) (red : Reduction) (program : Program) : Except Cause Value :=
  Machine.exec r red program [] >>= Machine.result r

end SkillGraph
