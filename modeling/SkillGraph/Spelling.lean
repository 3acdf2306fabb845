import SkillGraph.Registry.Basic

/-! Spelling: the expression that stands for a graph. Operations are put in parentheses throughout,
so that no ranks are needed to read them back. -/
namespace SkillGraph

/-- A code that stands for no operator is spelled as a sum. -/
def operatorSymbol (group : OpGroup) (code : UInt8) : String :=
  match group.operator? code with
  | some op => op.symbol
  | none => "+"

/-- The spelled arguments of a call in the order of its fields: one for each field that is there,
but one for each item of an array. Each stored field comes with its value, its spelling and, if it
is a list, the spellings of its items. -/
def spelledArguments (fields : List Field)
    (stored : List (String × String × Option (List String))) : List String :=
  fields.flatMap fun f =>
    match stored.lookup f.key with
    | none => []
    | some (spelled, items) => match items with
      | some items => if f.kind.isArray then items else [spelled]
      | none => [spelled]

/-- A call of an atom by the tag of its record. A tag that no atom has stands for itself. -/
def spellCall (r : Registry) (tag : String)
    (stored : List (String × String × Option (List String))) : String :=
  match r.atomTagged? tag with
  | none => tag
  | some a => a.name ++ "(" ++ ", ".intercalate (spelledArguments a.fields stored) ++ ")"

mutual

def Node.spell (r : Registry) : Node → String
  | .constant x key => if key = "" then spellNumber x else "\x7b" ++ key ++ "\x7d"
  | .boolean b => spellBool b
  | .negate operand => "-(" ++ operand.spell r ++ ")"
  | .not operand => "!(" ++ operand.spell r ++ ")"
  | .operation group code left right =>
    "(" ++ left.spell r ++ " " ++ operatorSymbol group code ++ " " ++ right.spell r ++ ")"
  | .call tag fields => spellCall r tag (spellFields r fields)

def Value.spell (r : Registry) : Value → String
  | .number x => spellNumber x
  | .bool b => spellBool b
  | .text s => "\"" ++ s ++ "\""
  | .node n => n.spell r
  | .list items => ", ".intercalate (spellItems r items)

def spellItems (r : Registry) : List Value → List String
  | [] => []
  | item :: rest => item.spell r :: spellItems r rest

def spellFields (r : Registry) :
    List (String × Value) → List (String × String × Option (List String))
  | [] => []
  | (key, .list items) :: rest =>
    let spelled := spellItems r items
    (key, ", ".intercalate spelled, some spelled) :: spellFields r rest
  | (key, value) :: rest => (key, value.spell r, none) :: spellFields r rest

end

end SkillGraph
