import SkillGraph.Atom.Basic
import SkillGraph.Cause
import SkillGraph.Node

/-! Instances of atoms. Arguments fill the fields in order, an array field takes all that are left,
and arguments past the last field are dropped. On its way into a field an argument may be unwrapped
from a literal node or wrapped into one. -/
namespace SkillGraph

namespace Value

/-- A literal, or the negation of one, as a plain number. -/
def bareNumber (v : Value) : Value :=
  match v with
  | .node (.negate operand) => match operand.plainNumber? with
    | some x => .number (-x)
    | none => v
  | .node n => match n.plainNumber? with
    | some x => .number x
    | none => v
  | _ => v

def bareBool (v : Value) : Value :=
  match v with
  | .node (.boolean b) => .bool b
  | _ => v

def asNumeric (v : Value) : Value :=
  match v with
  | .number x => .node (.literal x)
  | _ => v

def asBoolean (v : Value) : Value :=
  match v with
  | .bool b => .node (.boolean b)
  | _ => v

end Value

def Field.store (f : Field) (v : Value) : Value :=
  match f.kind with
  | .number => v.bareNumber
  | .bool => v.bareBool
  | .string | .choice => v
  | .node | .nodeArray => match f.base with
    | some .numeric => v.asNumeric
    | some .boolean => v.asBoolean
    | _ => v

def fillFields (call : String) : List Field → List Value → Except Cause (List (String × Value))
  | [], _ => .ok []
  | f :: rest, args =>
    if f.kind.isArray then
      if args.isEmpty then
        if f.optional then fillFields call rest [] else .error (.emptyArray call f.key)
      else (fillFields call rest []).map ((f.key, .list (args.map f.store)) :: ·)
    else match args with
      | [] => .ok []
      | arg :: args => (fillFields call rest args).map ((f.key, f.store arg) :: ·)

def Atom.instantiate (a : Atom) (args : List Value) : Except Cause Node :=
  if args.length < a.leastArguments then
    .error (.argCount a.name a.leastArguments args.length (some a.signature))
  else (fillFields a.name a.fields args).map (.call a.tag ·)

end SkillGraph
