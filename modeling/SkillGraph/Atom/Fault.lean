import SkillGraph.Atom.Basic
import SkillGraph.Node
import SkillGraph.Text.Classes

/-! What makes an atom unusable. Calls, records and rendering rely on the absence of these faults;
`Atom.fault?` names the first one in the order of the checks. -/
namespace SkillGraph

inductive FieldFault where
  | unusableKey (index : Nat)
  | repeatedKey
  | needsBase
  | forbiddenBase (base : Family)
  | arrayNotLast
  | restNotArray
  deriving DecidableEq, Repr

inductive AtomFault where
  | emptyCallName
  | notAnIdentifier
  | literalWord
  | emptyTag
  | builtinTag
  | field (f : Field) (fault : FieldFault)
  deriving DecidableEq, Repr

def FieldFault.reason (f : Field) : FieldFault → String
  | .unusableKey index => "field " ++ toString index ++ " has an unusable key '" ++ f.key ++ "'"
  | .repeatedKey => "field key '" ++ f.key ++ "' appears twice"
  | .needsBase => "field '" ++ f.key ++ "' needs a base kind"
  | .forbiddenBase base =>
    f.kind.name ++ " field '" ++ f.key ++ "' cannot have base kind " ++ base.name
  | .arrayNotLast => "array field '" ++ f.key ++ "' must be the last field"
  | .restNotArray => "only an array field can be a rest field, not '" ++ f.key ++ "'"

def AtomFault.reason (a : Atom) : AtomFault → String
  | .emptyCallName => "call name is empty"
  | .notAnIdentifier => "call name '" ++ a.name ++ "' is not an identifier"
  | .literalWord => "call name '" ++ a.name ++ "' always parses as a literal"
  | .emptyTag => "wire tag is empty"
  | .builtinTag => "wire tag '" ++ a.tag ++ "' is reserved for a built-in node"
  | .field f fault => fault.reason f

/-- An ASCII letter or underscore, then letters, digits and underscores. -/
def isName (name : String) : Bool :=
  match name.toList with
  | [] => false
  | c :: rest => (c.isAlpha || c = '_') && rest.all fun c => c.isAlphanum || c = '_'

/-- The words that are literals wherever they stand. -/
def reservedWords : List String := ["true", "True", "TRUE", "false", "False", "FALSE", "Infinity"]

/-- The member that holds the tag of a record. -/
def className : String := "_ClassName"

/-- The first fault of the field at `index`, where `before` holds the keys of the fields before it
and `last` says whether no field follows. -/
def Field.fault? (f : Field) (index : Nat) (before : List String) (last : Bool) :
    Option FieldFault :=
  if f.key = "" || f.key = className then some (.unusableKey index)
  else if f.key ∈ before then some .repeatedKey
  else match f.kind.holdsNodes, f.base with
    | true, none => some .needsBase
    | false, some base => some (.forbiddenBase base)
    | _, _ =>
      if f.kind.isArray && !last then some .arrayNotLast
      else if f.rest && !f.kind.isArray then some .restNotArray
      else none

def fieldsFault? (before : List String) : List Field → Option AtomFault
  | [] => none
  | f :: rest =>
    match f.fault? before.length before rest.isEmpty with
    | some fault => some (.field f fault)
    | none => fieldsFault? (before ++ [f.key]) rest

def Atom.fault? (a : Atom) : Option AtomFault :=
  if Text.trim a.name = "" then some .emptyCallName
  else if !isName a.name then some .notAnIdentifier
  else if a.name ∈ reservedWords then some .literalWord
  else if Text.trim a.tag = "" then some .emptyTag
  else if a.tag ∈ Node.builtinTags then some .builtinTag
  else fieldsFault? [] a.fields

end SkillGraph
