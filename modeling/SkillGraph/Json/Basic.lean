/-! JSON values. Objects keep the order of their members; integers and decimals are told apart. -/
namespace SkillGraph

inductive Json.Number where
  | integer (n : Int)
  | decimal (x : Float)

inductive Json where
  | null
  | bool (b : Bool)
  | number (n : Json.Number)
  | string (s : String)
  | array (items : List Json)
  | object (members : List (String × Json))

namespace Json

instance : Inhabited Json := ⟨.null⟩

def nat (n : Nat) : Json := .number (.integer n)

def strings (texts : List String) : Json := .array (texts.map .string)

/-- A repeated name keeps the place of its first member and takes the new value. -/
def putMember {α : Type} (name : String) (value : α) : List (String × α) → List (String × α)
  | [] => [(name, value)]
  | (n, v) :: rest =>
    if n = name then (n, value) :: rest else (n, v) :: putMember name value rest

def distinctMembers {α : Type} (members : List (String × α)) : List (String × α) :=
  members.foldl (fun found (name, value) => putMember name value found) []

mutual

/-- The value with every repeated member of an object merged into its first. -/
def merged : Json → Json
  | .array items => .array (mergedItems items)
  | .object members => .object (distinctMembers (mergedMembers members))
  | .null => .null
  | .bool b => .bool b
  | .number n => .number n
  | .string s => .string s

def mergedItems : List Json → List Json
  | [] => []
  | item :: rest => item.merged :: mergedItems rest

def mergedMembers : List (String × Json) → List (String × Json)
  | [] => []
  | (name, value) :: rest => (name, value.merged) :: mergedMembers rest

end

def findMember? (members : List (String × Json)) (name : String) : Option Json :=
  members.lookup name

def member? (json : Json) (name : String) : Option Json :=
  match json with
  | .object members => findMember? members name
  | _ => none

def isNull : Json → Bool
  | .null => true
  | _ => false

def string? : Json → Option String
  | .string s => some s
  | _ => none

def bool? : Json → Option Bool
  | .bool b => some b
  | _ => none

def array? : Json → Option (List Json)
  | .array items => some items
  | _ => none

/-- An integer that is not negative. A decimal is none, even if it is whole. -/
def nat? : Json → Option Nat
  | .number (.integer n) => n.toNat?
  | _ => none

end Json

end SkillGraph
