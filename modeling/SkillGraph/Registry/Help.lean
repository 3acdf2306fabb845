import SkillGraph.Registry.Basic
import SkillGraph.Text.Lower

/-! Help on the atoms of a registry, and for a name the registered names that resemble it, best
first. -/
namespace SkillGraph

def Field.help (f : Field) : Json :=
  .object [("key", .string f.key), ("kind", .string f.kind.name),
    ("base", match f.base with | some base => .string base.name | none => .null),
    ("optional", .bool f.optional), ("rest", .bool f.rest), ("description", .string f.description)]

def Atom.help (a : Atom) : Json :=
  .object [("name", .string a.name), ("tag", .string a.tag), ("usage", .string a.signature),
    ("description", .string a.description), ("category", .string a.category),
    ("fields", .array (a.fields.map Field.help))]

def Atom.summary (a : Atom) : Json :=
  .object [("name", .string a.name), ("tag", .string a.tag), ("usage", .string a.signature),
    ("category", .string a.category)]

namespace Registry

/-- Help on one atom, found by call name or else by tag. -/
def help? (r : Registry) (name : String) : Option Json :=
  ((r.atomCalled? name).or (r.atomTagged? name)).map Atom.help

def summaries (r : Registry) (category : Option String) : List Json :=
  (r.sorted.filter fun a => category.all (a.category = ·)).map Atom.summary

def categories (r : Registry) : List String :=
  (((r.atoms.map Atom.category).filter (· ≠ "")).mergeSort (· ≤ ·)).eraseReps

end Registry

namespace Similarity

def occursIn (part : List Char) : List Char → Bool
  | [] => part.isEmpty
  | c :: rest => part.isPrefixOf (c :: rest) || occursIn part rest

def containment (query candidate : List Char) : Nat :=
  if candidate = query then 200
  else if query.isPrefixOf candidate then 100
  else if occursIn query candidate then 50
  else if occursIn candidate query then 30
  else 0

/-- The share of distinct letters in common, from 0 to 20. -/
def commonShare (query candidate : List Char) : Nat :=
  let letters := query.eraseDups
  let others := candidate.eraseDups
  let common := (letters.filter (· ∈ others)).length
  let union := letters.length + others.length - common
  common * 20 / max union 1

/-- How much a candidate resembles a query; both are in lower case. -/
def score (query candidate : List Char) : Nat :=
  if query.isEmpty then 0 else containment query candidate + commonShare query candidate

def threshold : Nat := 10

/-- Higher scores first, names of one score in order. -/
def precedes (a b : String × Nat) : Bool := b.2 < a.2 || (a.2 = b.2 && a.1 ≤ b.1)

end Similarity

def Registry.suggestions (r : Registry) (name : String) : List String :=
  let query := (Text.lower name).toList
  let scored := r.byName.map fun (call, _) =>
    (call, Similarity.score query (Text.lower call).toList)
  ((scored.filter (Similarity.threshold ≤ ·.2)).mergeSort Similarity.precedes).map (·.1)

end SkillGraph
