import SkillGraph.Operator
import SkillGraph.Number.Numeral

/-! Skill graphs. A node is a constant, an operation or a call of an atom; a value is what stands in
a field of a call: a primitive, a node or a list. -/
namespace SkillGraph

mutual

inductive Node where
  /-- A number. A key that is not empty binds it to an entry of an outside table. -/
  | constant (value : Float) (key : String)
  | boolean (value : Bool)
  | negate (operand : Node)
  | not (operand : Node)
  /-- Operator codes are kept as stored, even those that stand for no operator. -/
  | operation (group : OpGroup) (code : UInt8) (left right : Node)
  /-- An instance of an atom: its tag and its fields in stored order. -/
  | call (tag : String) (fields : List (String × Value))

inductive Value where
  | number (x : Float)
  | bool (b : Bool)
  | text (s : String)
  | node (n : Node)
  | list (items : List Value)

end

namespace Node

instance : Inhabited Node := ⟨.boolean false⟩

/-- A constant that is bound to no table. -/
def literal (x : Float) : Node := .constant x ""

/-- A constant that is looked up in an outside table when the skill runs. -/
def bound (key : String) : Node := .constant 0.0 key

def binary (op : BinaryOp) (left right : Node) : Node := .operation op.group op.code left right

def groupTag : OpGroup → String
  | .arithmetic => "ArithmeticOp"
  | .logic => "LogicalOp"
  | .comparison => "RelationalOp"

def tag : Node → String
  | .constant .. => "NumberConst"
  | .boolean _ => "BoolConst"
  | .negate _ => "NegateNumber"
  | .not _ => "NotBool"
  | .operation group .. => groupTag group
  | .call tag _ => tag

def builtinTags : List String :=
  ["NumberConst", "BoolConst", "NegateNumber", "NotBool", "ArithmeticOp", "LogicalOp",
    "RelationalOp"]

def plainNumber? : Node → Option Float
  | .constant x key => if key = "" then some x else none
  | _ => none

def plainBool? : Node → Option Bool
  | .boolean b => some b
  | _ => none

end Node

def fieldValue? (fields : List (String × Value)) (key : String) : Option Value := fields.lookup key

/-- Numbers in expressions: never an exponent, no point in a whole number, and of two nearest
decimals the larger. -/
def numeralStyle : Number.Style := ⟨.up, fun _ => true, false⟩

def spellNumber (x : Float) : String :=
  match Number.Binary.ofFloat? x with
  | some b => numeralStyle.write b
  | none => if x.isNaN then "NaN" else if x < 0 then "-Infinity" else "Infinity"

example : [spellNumber (-0.0), spellNumber 1e21, spellNumber 2.98023223876953125e-8] =
    ["-0", "1000000000000000000000", "0.000000029802322387695313"] := by decide +kernel

def spellBool (b : Bool) : String := if b then "true" else "false"

namespace Value

instance : Inhabited Value := ⟨.bool false⟩

def number? : Value → Option Float
  | .number x => some x
  | _ => none

def bool? : Value → Option Bool
  | .bool b => some b
  | _ => none

def text? : Value → Option String
  | .text s => some s
  | _ => none

def node? : Value → Option Node
  | .node n => some n
  | _ => none

def list? : Value → Option (List Value)
  | .list items => some items
  | _ => none

def brief : Value → String
  | .number x => spellNumber x
  | .bool b => spellBool b
  | .text s => s
  | .node n => "<" ++ n.tag ++ ">"
  | .list items => "[" ++ toString items.length ++ " items]"

end Value

mutual

/-- Equality that compares numbers as doubles do: zero equals negative zero, and no NaN equals
anything. -/
def Node.same : Node → Node → Bool
  | .constant x key, .constant x' key' => x == x' && key == key'
  | .boolean b, .boolean b' => b == b'
  | .negate n, .negate n' => n.same n'
  | .not n, .not n' => n.same n'
  | .operation group code l r, .operation group' code' l' r' =>
    group == group' && code == code' && l.same l' && r.same r'
  | .call tag fields, .call tag' fields' => tag == tag' && sameFields fields fields'
  | _, _ => false

def Value.same : Value → Value → Bool
  | .number x, .number x' => x == x'
  | .bool b, .bool b' => b == b'
  | .text s, .text s' => s == s'
  | .node n, .node n' => n.same n'
  | .list items, .list items' => sameItems items items'
  | _, _ => false

def sameItems : List Value → List Value → Bool
  | [], [] => true
  | v :: rest, v' :: rest' => v.same v' && sameItems rest rest'
  | _, _ => false

def sameFields : List (String × Value) → List (String × Value) → Bool
  | [], [] => true
  | (key, v) :: rest, (key', v') :: rest' => key == key' && v.same v' && sameFields rest rest'
  | _, _ => false

end

instance : BEq Node := ⟨Node.same⟩

instance : BEq Value := ⟨Value.same⟩

end SkillGraph
