/-! The operators of the expression language: their symbols, the codes that records store for them,
and how tightly they bind. -/
namespace SkillGraph

inductive Arithmetic where
  | add | sub | mul | div | mod
  deriving DecidableEq, Repr

inductive Logic where
  | and | or
  deriving DecidableEq, Repr

inductive Comparison where
  | ge | gt | le | lt | eq | ne
  deriving DecidableEq, Repr

/-- The groups of operators with two operands. Each has codes of its own. -/
inductive OpGroup where
  | arithmetic | logic | comparison
  deriving DecidableEq, Repr

inductive BinaryOp where
  | arithmetic (op : Arithmetic)
  | logic (op : Logic)
  | comparison (op : Comparison)
  deriving DecidableEq, Repr

inductive Operator where
  | negate
  | not
  | binary (op : BinaryOp)
  deriving DecidableEq, Repr

namespace Arithmetic

def code : Arithmetic → UInt8
  | .add => 0 | .sub => 1 | .mul => 2 | .div => 3 | .mod => 4

def ofCode? : UInt8 → Option Arithmetic
  | 0 => some .add | 1 => some .sub | 2 => some .mul | 3 => some .div | 4 => some .mod
  | _ => none

def symbol : Arithmetic → String
  | .add => "+" | .sub => "-" | .mul => "*" | .div => "/" | .mod => "%"

end Arithmetic

namespace Logic

def code : Logic → UInt8
  | .and => 0 | .or => 1

def ofCode? : UInt8 → Option Logic
  | 0 => some .and | 1 => some .or
  | _ => none

def symbol : Logic → String
  | .and => "&&" | .or => "||"

end Logic

namespace Comparison

def code : Comparison → UInt8
  | .ge => 0 | .gt => 1 | .le => 2 | .lt => 3 | .eq => 4 | .ne => 5

def ofCode? : UInt8 → Option Comparison
  | 0 => some .ge | 1 => some .gt | 2 => some .le | 3 => some .lt | 4 => some .eq | 5 => some .ne
  | _ => none

def symbol : Comparison → String
  | .ge => ">=" | .gt => ">" | .le => "<=" | .lt => "<" | .eq => "==" | .ne => "!="

end Comparison

def OpGroup.operator? : OpGroup → UInt8 → Option BinaryOp
  | .arithmetic, code => (Arithmetic.ofCode? code).map .arithmetic
  | .logic, code => (Logic.ofCode? code).map .logic
  | .comparison, code => (Comparison.ofCode? code).map .comparison

namespace BinaryOp

def group : BinaryOp → OpGroup
  | .arithmetic _ => .arithmetic
  | .logic _ => .logic
  | .comparison _ => .comparison

def code : BinaryOp → UInt8
  | .arithmetic op => op.code
  | .logic op => op.code
  | .comparison op => op.code

def symbol : BinaryOp → String
  | .arithmetic op => op.symbol
  | .logic op => op.symbol
  | .comparison op => op.symbol

/-- Smaller ranks bind tighter. -/
def rank : BinaryOp → Nat
  | .arithmetic .mul | .arithmetic .div | .arithmetic .mod => 3
  | .arithmetic .add | .arithmetic .sub => 4
  | .comparison .gt | .comparison .ge | .comparison .lt | .comparison .le => 6
  | .comparison .eq | .comparison .ne => 7
  | .logic .and => 11
  | .logic .or => 12

theorem operator?_code (op : BinaryOp) : op.group.operator? op.code = some op := by
  rcases op with op | op | op <;> cases op <;> rfl

end BinaryOp

namespace Operator

def symbol : Operator → String
  | .negate => "-"
  | .not => "!"
  | .binary op => op.symbol

def rank : Operator → Nat
  | .negate | .not => 2
  | .binary op => op.rank

def isUnary : Operator → Bool
  | .negate | .not => true
  | .binary _ => false

/-- The operator that a lexeme spells. A minus sign spells subtraction; where it is a negation
depends on what stands before it. -/
def ofSymbol? : String → Option Operator
  | "!" => some .not
  | "*" => some (.binary (.arithmetic .mul))
  | "/" => some (.binary (.arithmetic .div))
  | "%" => some (.binary (.arithmetic .mod))
  | "+" => some (.binary (.arithmetic .add))
  | "-" => some (.binary (.arithmetic .sub))
  | ">" => some (.binary (.comparison .gt))
  | ">=" => some (.binary (.comparison .ge))
  | "<" => some (.binary (.comparison .lt))
  | "<=" => some (.binary (.comparison .le))
  | "==" => some (.binary (.comparison .eq))
  | "!=" => some (.binary (.comparison .ne))
  | "&&" => some (.binary (.logic .and))
  | "||" => some (.binary (.logic .or))
  | _ => none

theorem ofSymbol?_symbol (op : BinaryOp) : ofSymbol? op.symbol = some (.binary op) := by
  rcases op with op | op | op <;> cases op <;> rfl

end Operator

end SkillGraph
