import SkillGraph.Json.Basic

/-! JSON text as written. A syntax tree keeps repeated members, and keeps literals that are well
formed but denote nothing: a number beyond all doubles, a string with half a surrogate pair. What
is never asked for its value may contain them. -/
namespace SkillGraph.Json

inductive Syntax where
  | null
  | bool (b : Bool)
  | number (value : Option Number)
  | string (value : Option String)
  | array (items : List Syntax)
  | object (members : List (Option String × Syntax))

namespace Syntax

/-- How many arrays and objects may stand inside one another in a text. -/
def nesting : Nat := 127

mutual

/-- The value that the syntax denotes, with at most `levels` containers inside one another. The
last of several members of one name counts, in the place of the first. -/
def value? : Nat → Syntax → Option Json
  | _, .null => some .null
  | _, .bool b => some (.bool b)
  | _, .number n => n.map .number
  | _, .string s => s.map .string
  | 0, .array _ => none
  | levels + 1, .array items => (itemValues? levels items).map .array
  | 0, .object _ => none
  | levels + 1, .object members =>
    (memberValues? levels members).map fun ms => .object (distinctMembers ms)

def itemValues? : Nat → List Syntax → Option (List Json)
  | _, [] => some []
  | levels, item :: rest => do
    let v ← item.value? levels
    let vs ← itemValues? levels rest
    return v :: vs

def memberValues? : Nat → List (Option String × Syntax) → Option (List (String × Json))
  | _, [] => some []
  | levels, (name, item) :: rest => do
    let name ← name
    let v ← item.value? levels
    let vs ← memberValues? levels rest
    return (name, v) :: vs

end

end Syntax

end SkillGraph.Json
