/-! Atoms: the named building blocks of skill graphs. An atom says how it is called, which tag its
records carry, and which fields its arguments fill, in the order of the arguments. -/
namespace SkillGraph

inductive Kind where
  | string
  | number
  | bool
  /-- One of a fixed set of names, stored as text. -/
  | choice
  | node
  | nodeArray
  deriving DecidableEq, Repr

inductive Family where
  | numeric | boolean | actor | event | action | task
  deriving DecidableEq, Repr

namespace Kind

def all : List Kind := [.string, .number, .bool, .choice, .node, .nodeArray]

def name : Kind → String
  | .string => "string"
  | .number => "number"
  | .bool => "bool"
  | .choice => "choice"
  | .node => "node"
  | .nodeArray => "node_array"

def isArray (kind : Kind) : Bool := kind = .nodeArray

def holdsNodes : Kind → Bool
  | .node | .nodeArray => true
  | _ => false

end Kind

namespace Family

def all : List Family := [.numeric, .boolean, .actor, .event, .action, .task]

def name : Family → String
  | .numeric => "numeric"
  | .boolean => "boolean"
  | .actor => "actor"
  | .event => "event"
  | .action => "action"
  | .task => "task"

end Family

structure Field where
  key : String
  kind : Kind
  base : Option Family := none
  optional : Bool := false
  rest : Bool := false
  description : String := ""
  deriving DecidableEq, Repr

structure Atom where
  name : String
  tag : String
  fields : List Field := []
  description : String := ""
  category : String := ""
  deriving DecidableEq, Repr

def Field.signature (f : Field) : String :=
  let shown := if f.kind.isArray then f.key ++ "..." else f.key
  if f.optional then "[" ++ shown ++ "]" else shown

namespace Atom

def leastArguments (a : Atom) : Nat := a.fields.countP (!·.optional)

def array? (a : Atom) : Option Field := a.fields.find? (·.kind.isArray)

def field? (a : Atom) (key : String) : Option Field := a.fields.find? (·.key = key)

/-- The call signature, for instance `Damage(Target, Amount, [Element])`. -/
def signature (a : Atom) : String :=
  a.name ++ "(" ++ ", ".intercalate (a.fields.map Field.signature) ++ ")"

end Atom

end SkillGraph
