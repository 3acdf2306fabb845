import SkillGraph.Json.Basic
import SkillGraph.Number.Numeral

/-! The compact text of a JSON value. -/
namespace SkillGraph.Json

/-- Decimals take the even one of two nearest, keep their point, and are written with an exponent
outside `10 ^ -5` to `10 ^ 15`. -/
def style : Number.Style := ⟨.even, fun exponent => -5 ≤ exponent && exponent ≤ 15, true⟩

/-- Numbers that are not finite have no spelling of their own. -/
def Number.write : Number → String
  | .integer n => toString n
  | .decimal x => match Number.Binary.ofFloat? x with
    | some b => style.write b
    | none => "null"

example : [(Number.decimal 1e15).write, (Number.decimal 1e16).write, (Number.decimal 1e-6).write,
    (Number.decimal 2.98023223876953125e-8).write] =
    ["1000000000000000.0", "1e+16", "1e-6", "2.9802322387695312e-8"] := by decide +kernel

def hexDigit (n : Nat) : Char := Nat.digitChar (n % 16)

def escaped (c : Char) : List Char :=
  if c = '"' then ['\\', '"']
  else if c = '\\' then ['\\', '\\']
  else if c = '\x08' then ['\\', 'b']
  else if c = '\t' then ['\\', 't']
  else if c = '\n' then ['\\', 'n']
  else if c = '\x0c' then ['\\', 'f']
  else if c = '\r' then ['\\', 'r']
  else if c.toNat < 32 then ['\\', 'u', '0', '0', hexDigit (c.toNat / 16), hexDigit c.toNat]
  else [c]

def quoted (s : String) : String := String.ofList ('"' :: s.toList.flatMap escaped ++ ['"'])

mutual

def write : Json → String
  | .null => "null"
  | .bool b => if b then "true" else "false"
  | .number n => n.write
  | .string s => quoted s
  | .array items => "[" ++ ",".intercalate (writeItems items) ++ "]"
  | .object members => "\x7b" ++ ",".intercalate (writeMembers members) ++ "\x7d"

def writeItems : List Json → List String
  | [] => []
  | item :: rest => item.write :: writeItems rest

def writeMembers : List (String × Json) → List String
  | [] => []
  | (name, value) :: rest => (quoted name ++ ":" ++ value.write) :: writeMembers rest

end

end SkillGraph.Json
