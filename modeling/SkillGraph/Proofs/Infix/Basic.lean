import SkillGraph.Compiler

/-! Infix expressions as they are written, with their parentheses kept. `evaluate` reads one by
recursion on its structure, without a stack; the later modules compare the postfix machine with
it. -/
namespace SkillGraph

inductive Unary where
  | negate
  | not
  deriving DecidableEq, Repr

namespace Unary

def operator : Unary → Operator
  | .negate => .negate
  | .not => .not

def node : Unary → Node → Node
  | .negate => .negate
  | .not => .not

end Unary

inductive Infix where
  /-- A literal, or a name that no atom has. -/
  | word (text : String)
  /-- A call without parentheses. -/
  | bare (name : String)
  | call (name : String) (args : List Infix)
  | group (inner : Infix)
  | unary (op : Unary) (operand : Infix)
  | binary (op : BinaryOp) (left right : Infix)

namespace Infix

mutual

def lexemes : Infix → List String
  | .word text => [text]
  | .bare name => [name]
  | .call name args => name :: "(" :: [","].intercalate (allLexemes args) ++ [")"]
  | .group inner => "(" :: inner.lexemes ++ [")"]
  | .unary op operand => op.operator.symbol :: operand.lexemes
  | .binary op left right => left.lexemes ++ op.symbol :: right.lexemes

def allLexemes : List Infix → List (List String)
  | [] => []
  | e :: rest => e.lexemes :: allLexemes rest

end

/-- The place of an operator in the table of the language. Smaller tiers bind tighter, and the
operators of one tier associate to the left. -/
def tierOf : BinaryOp → Nat
  | .arithmetic .mul | .arithmetic .div | .arithmetic .mod => 2
  | .arithmetic .add | .arithmetic .sub => 3
  | .comparison .gt | .comparison .ge | .comparison .lt | .comparison .le => 4
  | .comparison .eq | .comparison .ne => 5
  | .logic .and => 6
  | .logic .or => 7

def tier : Infix → Nat
  | .word _ | .bare _ | .call .. | .group _ => 0
  | .unary .. => 1
  | .binary op .. => tierOf op

mutual

/-- Whether parentheses stand wherever the tiers demand them, words are free of any other meaning
and all calls are of registered atoms. Further parentheses may stand anywhere. -/
def written (r : Registry) : Infix → Bool
  | .word text => Token.ofLexeme text = .word text && !r.isCallName text
  | .bare name => r.isCallName name
  | .call name args => r.isCallName name && allWritten r args
  | .group inner => inner.written r
  | .unary _ operand => operand.tier ≤ 1 && operand.written r
  | .binary op left right =>
    left.tier ≤ tierOf op && right.tier < tierOf op && left.written r && right.written r

def allWritten (r : Registry) : List Infix → Bool
  | [] => true
  | e :: rest => e.written r && allWritten r rest

end

def negates : Infix → Bool
  | .unary .negate _ => true
  | _ => false

mutual

/-- Whether a minus sign stands directly behind another prefix operator somewhere. -/
def doubles : Infix → Bool
  | .word _ | .bare _ => false
  | .call _ args => anyDoubles args
  | .group inner => inner.doubles
  | .unary _ operand => operand.negates || operand.doubles
  | .binary _ left right => left.doubles || right.doubles

def anyDoubles : List Infix → Bool
  | [] => false
  | e :: rest => e.doubles || anyDoubles rest

end

def operand (op : Operator) : Value → Except Cause Node
  | .node n => .ok n
  | v => .error (.invalidOperand op.symbol v.brief)

def applyUnary (red : Reduction) (op : Unary) (v : Value) : Except Cause Value := do
  let n ← operand op.operator v
  return .node (red.apply (op.node n))

/-- Of two faulty operands the right one is reported. -/
def applyBinary (red : Reduction) (op : BinaryOp) (left right : Value) : Except Cause Value := do
  let b ← operand (.binary op) right
  let a ← operand (.binary op) left
  return .node (red.apply (.binary op a b))

def applyAtom (r : Registry) (name : String) (args : List Value) : Except Cause Value := do
  let some a := r.atomCalled? name | throw (.leftoverTokens [name] none)
  return .node (← a.instantiate args)

mutual

/-- The value of the expression. An operator builds a node from its operands, a call one from its
arguments in order. -/
def evaluate (r : Registry) (red : Reduction) : Infix → Except Cause Value
  | .word text => .ok (Literal.value text)
  | .bare name => applyAtom r name []
  | .call name args => do applyAtom r name (← evaluateAll r red args)
  | .group inner => inner.evaluate r red
  | .unary op operand => do applyUnary red op (← operand.evaluate r red)
  | .binary op left right => do
    let a ← left.evaluate r red
    let b ← right.evaluate r red
    applyBinary red op a b

def evaluateAll (r : Registry) (red : Reduction) : List Infix → Except Cause (List Value)
  | [] => .ok []
  | e :: rest => do
    let v ← e.evaluate r red
    let vs ← evaluateAll r red rest
    return v :: vs

end

end Infix

end SkillGraph
