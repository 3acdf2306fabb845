import SkillGraph.Lexeme
import SkillGraph.Registry.Basic

/-! Postfix programs. Operators wait on a stack until their operands are written; an operator
releases every waiting one that binds at least as tightly, so all of them associate to the left. A
call marks where its arguments begin and waits as well, until its parenthesis closes or an operator
or comma follows. -/
namespace SkillGraph

inductive Instruction where
  /-- A word, read as a literal when the program runs. -/
  | operand (word : String)
  | operator (op : Operator)
  /-- Binds everything above the nearest marker to the fields of an atom. -/
  | call (name : String)
  /-- The start of the arguments of a call. -/
  | marker
  deriving DecidableEq, Repr

abbrev Program := List Instruction

inductive Pending where
  | operator (op : Operator)
  | opening
  | call (name : String)
  deriving DecidableEq, Repr

namespace Pending

/-- Calls give way to every operator, open parentheses to none. -/
def rank : Pending → Nat
  | .operator op => op.rank
  | .opening => 1023
  | .call _ => 1

def instruction? : Pending → Option Instruction
  | .operator op => some (.operator op)
  | .opening => none
  | .call name => some (.call name)

end Pending

namespace Program

/-- A comma releases everything up to this rank. -/
def commaRank : Nat := 15

def release (rank : Nat) (pending : List Pending) : Program × List Pending :=
  ((pending.takeWhile (·.rank ≤ rank)).filterMap Pending.instruction?,
    pending.dropWhile (·.rank ≤ rank))

/-- Releases the entries up to the open parenthesis, and with it the call that it belongs to. -/
def closeParenthesis (pending : List Pending) : Except Cause (Program × List Pending) :=
  let released := (pending.takeWhile (· ≠ .opening)).filterMap Pending.instruction?
  match pending.dropWhile (· ≠ .opening) with
  | [] => .error (.mismatchedParens (some ")"))
  | _ :: .call name :: rest => .ok (released ++ [.call name], rest)
  | _ :: rest => .ok (released, rest)

/-- Whether an operand begins behind the token, so that a minus sign negates it. -/
def opensOperand : Option Token → Bool
  | none | some .opening | some .comma | some (.operator _) => true
  | some .closing | some (.word _) => false

def inPlace (previous : Option Token) (op : Operator) : Operator :=
  if op = .binary (.arithmetic .sub) && opensOperand previous then .negate else op

/-- What one token adds to the program and does to the stack. The operator `!` waits at once; every
other one first releases what binds as tightly. -/
def step (r : Registry) (previous : Option Token) (pending : List Pending) :
    Token → Except Cause (Program × List Pending)
  | .opening => .ok ([], .opening :: pending)
  | .closing => closeParenthesis pending
  | .comma => .ok (release commaRank pending)
  | .operator op =>
    let op := inPlace previous op
    if op = .not then .ok ([], .operator op :: pending)
    else
      let (released, rest) := release op.rank pending
      .ok (released, .operator op :: rest)
  | .word text =>
    if r.isCallName text then .ok ([.marker], .call text :: pending)
    else .ok ([.operand text], pending)

def finish (pending : List Pending) : Except Cause Program :=
  if .opening ∈ pending then .error (.mismatchedParens (some "("))
  else .ok (pending.filterMap Pending.instruction?)

def convert (r : Registry) (previous : Option Token) (pending : List Pending) :
    List Token → Except Cause Program
  | [] => finish pending
  | token :: rest => do
    let (emitted, pending) ← step r previous pending token
    return emitted ++ (← convert r (some token) pending rest)

def ofTokens (r : Registry) (tokens : List Token) : Except Cause Program := convert r none [] tokens

end Program

end SkillGraph
