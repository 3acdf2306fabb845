import SkillGraph.Node
import SkillGraph.Json.Writer

/-! The records of graphs. A node becomes an object whose member `_ClassName` holds its tag and whose
other members are its fields. Numbers that are not finite are written as strings. -/
namespace SkillGraph

namespace Record

/-- Up to this magnitude whole numbers are written as integers: every one of them is a double. -/
def exactIntegers : Nat := Number.twoTo 53

def numberJson (x : Float) : Json :=
  match Number.Binary.ofFloat? x with
  | none => .string (spellNumber x)
  | some b => match b.toInt? with
    | some n => if n.natAbs ≤ exactIntegers then .number (.integer n) else .number (.decimal x)
    | none => .number (.decimal x)

mutual

/-- The record of a node with every field as stored, repeated ones too. -/
def ofNode : Node → Json
  | .constant x key => .object
    [("_ClassName", .string "NumberConst"), ("Constant", numberJson x), ("ConstantKey", .string key)]
  | .boolean b => .object [("_ClassName", .string "BoolConst"), ("BoolConst", .bool b)]
  | .negate operand =>
    .object [("_ClassName", .string "NegateNumber"), ("Operand", ofNode operand)]
  | .not operand => .object [("_ClassName", .string "NotBool"), ("Value", ofNode operand)]
  | .operation group code left right => .object
    [("_ClassName", .string (Node.groupTag group)), ("lhs", ofNode left),
      ("operator", .nat code.toNat), ("rhs", ofNode right)]
  | .call tag fields => .object (("_ClassName", .string tag) :: ofFields fields)

def ofValue : Value → Json
  | .number x => numberJson x
  | .bool b => .bool b
  | .text s => .string s
  | .node n => ofNode n
  | .list items => .array (ofItems items)

def ofItems : List Value → List Json
  | [] => []
  | item :: rest => ofValue item :: ofItems rest

def ofFields : List (String × Value) → List (String × Json)
  | [] => []
  | (key, value) :: rest => (key, ofValue value) :: ofFields rest

end

end Record

/-- The record of a node as a JSON value; a repeated field is merged into its first. -/
def Node.toJson (n : Node) : Json := (Record.ofNode n).merged

def Value.toJson (v : Value) : Json := (Record.ofValue v).merged

def Value.write (v : Value) : String := (Record.ofValue v).write

end SkillGraph
