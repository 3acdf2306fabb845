import SkillGraph.Json.Reader

/-! Records with known members. In an object other members are passed over unread, and a known member
that stands twice is refused. In an array the members go without their names. -/
namespace SkillGraph.Json

abbrev Form := List (String × Syntax)

namespace Syntax

/-- An array gives the members in the order of their names: all leading ones, then some others. -/
def form? (leading others : List String) : Syntax → Option Form
  | .object members => members.mapM fun (name, value) => name.map (·, value)
  | .array items =>
    let names := leading ++ others
    if leading.length ≤ items.length && items.length ≤ names.length then some (names.zip items)
    else none
  | _ => none

def string? : Syntax → Option String
  | .string s => s
  | _ => none

def bool? : Syntax → Option Bool
  | .bool b => some b
  | _ => none

/-- A name that stands alone, or as the one member of an object, with null for its value. -/
def choice? : Syntax → Option String
  | .string s => s
  | .object [(name, .null)] => name
  | _ => none

def list? {α : Type} (read : Syntax → Option α) : Syntax → Option (List α)
  | .array items => items.mapM read
  | _ => none

end Syntax

namespace Form

/-- The member of that name, if any; no answer if there are several. -/
def only? (form : Form) (name : String) : Option (Option Syntax) :=
  match form.filter (·.1 = name) with
  | [] => some none
  | [(_, value)] => some (some value)
  | _ => none

def required {α : Type} (form : Form) (name : String) (read : Syntax → Option α) : Option α :=
  do read (← (← form.only? name))

/-- A member that may be absent but not null. -/
def defaulted {α : Type} (form : Form) (name : String) (default : α)
    (read : Syntax → Option α) : Option α := do
  match ← form.only? name with
  | none => return default
  | some value => read value

/-- A member for which null means the same as absence. -/
def nullable {α : Type} (form : Form) (name : String) (read : Syntax → Option α) :
    Option (Option α) := do
  match ← form.only? name with
  | none | some .null => return none
  | some value => some <$> read value

end Form

end SkillGraph.Json
