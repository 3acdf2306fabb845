import SkillGraph.Cause
import SkillGraph.Json.Reader
import SkillGraph.Json.Writer
import SkillGraph.Node

/-! Graphs from records. The tag decides which members count. A member that is null is taken for
absent, and the strings that stand for numbers that are not finite always read as numbers. -/
namespace SkillGraph

inductive RecordError where
  | notAnObject (found : Json)
  | noClassName
  | missing (tag member : String)
  | noOperator (tag : String)
  | notANumeral (text : String)
  | notANumber (found : Json)
  | nullValue

namespace RecordError

def details : RecordError → String
  | .notAnObject found => "expected an object, got " ++ found.write
  | .noClassName => "missing '_ClassName'"
  | .missing tag member => tag ++ " is missing '" ++ member ++ "'"
  | .noOperator tag => tag ++ " has no valid 'operator'"
  | .notANumeral text => "expected a number, got \"" ++ text ++ "\""
  | .notANumber found => "expected a number, got " ++ found.write
  | .nullValue => "null is not a value"

def cause (e : RecordError) : Cause := .wireFormat e.details

end RecordError

namespace Record

def specialNumber? : String → Option Float
  | "Infinity" => some (1.0 / 0.0)
  | "-Infinity" => some (-1.0 / 0.0)
  | "NaN" => some (0.0 / 0.0)
  | _ => none

def numberValue : Json.Number → Float
  | .integer n => Float.ofInt n
  | .decimal x => x

def readNumber : Json → Except RecordError Float
  | .number n => .ok (numberValue n)
  | .string s => match specialNumber? s with
    | some x => .ok x
    | none => .error (.notANumeral s)
  | json => .error (.notANumber json)

structure Member where
  json : Json
  value : Except RecordError Value

abbrev Members := List (String × Member)

namespace Members

/-- The member, unless it is absent or null. -/
def stated? (members : Members) (name : String) : Option Member :=
  (members.lookup name).filter fun m => !m.json.isNull

def operand (members : Members) (tag name : String) : Except RecordError Node :=
  match members.stated? name with
  | none => .error (.missing tag name)
  | some ⟨.object _, .ok (.node n)⟩ => .ok n
  | some ⟨.object _, .error e⟩ => .error e
  | some ⟨json, _⟩ => .error (.notAnObject json)

def code (members : Members) (tag : String) : Except RecordError UInt8 :=
  match (members.stated? "operator").bind (·.json.nat?) with
  | some n => if n < 256 then .ok (UInt8.ofNat n) else .error (.noOperator tag)
  | none => .error (.noOperator tag)

/-- A missing number is zero; a key that is no string is no key. -/
def constant (members : Members) : Except RecordError Node := do
  let x ← match members.stated? "Constant" with
    | some m => readNumber m.json
    | none => pure 0.0
  return .constant x (((members.stated? "ConstantKey").bind (·.json.string?)).getD "")

def boolean (members : Members) : Node :=
  .boolean (((members.stated? "BoolConst").bind (·.json.bool?)).getD false)

def operation (members : Members) (tag : String) (group : OpGroup) : Except RecordError Node := do
  let left ← members.operand tag "lhs"
  let code ← members.code tag
  let right ← members.operand tag "rhs"
  return .operation group code left right

/-- The fields of a call are all other members that are not null. -/
def fields (members : Members) : Except RecordError (List (String × Value)) :=
  (members.filter fun (name, m) => name ≠ "_ClassName" && !m.json.isNull).mapM
    fun (name, m) => m.value.map (name, ·)

def tag? (members : Members) : Option String :=
  (members.lookup "_ClassName").bind (·.json.string?)

def node (members : Members) : Except RecordError Node :=
  match members.tag? with
  | none => .error .noClassName
  | some tag => match tag with
    | "NumberConst" => members.constant
    | "BoolConst" => .ok members.boolean
    | "NegateNumber" => (members.operand tag "Operand").map .negate
    | "NotBool" => (members.operand tag "Value").map .not
    | "ArithmeticOp" => members.operation tag .arithmetic
    | "LogicalOp" => members.operation tag .logic
    | "RelationalOp" => members.operation tag .comparison
    | _ => members.fields.map (.call tag ·)

end Members

mutual

def readValue : Json → Except RecordError Value
  | .null => .error .nullValue
  | .bool b => .ok (.bool b)
  | .number n => .ok (.number (numberValue n))
  | .string s => .ok (match specialNumber? s with
    | some x => .number x
    | none => .text s)
  | .array items => (readItems items).map .list
  | .object members => (readMembers members).node.map .node

/-- Nulls in a list are passed over. -/
def readItems : List Json → Except RecordError (List Value)
  | [] => .ok []
  | .null :: rest => readItems rest
  | item :: rest => do
    let v ← readValue item
    let vs ← readItems rest
    return v :: vs

def readMembers : List (String × Json) → Members
  | [] => []
  | (name, json) :: rest => (name, ⟨json, readValue json⟩) :: readMembers rest

end

def readNode : Json → Except RecordError Node
  | .object members => (readMembers members).node
  | json => .error (.notAnObject json)

inductive TextError where
  | notJson
  | malformed (e : RecordError)

/-- Reads a record at the start of a text. A malformed record is reported before what follows it
is looked at. -/
def readText {α : Type} (read : Json → Except RecordError α) (text : String) :
    Except TextError α := do
  let some (syn, rest) := Json.Syntax.first? text | throw .notJson
  let some json := syn.value? Json.Syntax.nesting | throw .notJson
  let found ← (read json).mapError .malformed
  if (Json.Reader.skipSpace rest).isEmpty then return found else throw .notJson

end Record

def Node.ofJson (json : Json) : Except RecordError Node := Record.readNode json

def Value.ofJson (json : Json) : Except RecordError Value := Record.readValue json

end SkillGraph
