import SkillGraph.Atom.Basic
import SkillGraph.Json.Form

/-! Atoms as JSON, alone and in tables. What is empty or absent is left out where its absence reads
back as the same. -/
namespace SkillGraph

/-- A description or category that is left out when it is empty. -/
def proseMember (name text : String) : List (String × Json) :=
  if text = "" then [] else [(name, .string text)]

def Field.toJson (f : Field) : Json :=
  .object ([("key", .string f.key), ("kind", .string f.kind.name)] ++
    (match f.base with
      | some base => [("base", .string base.name)]
      | none => []) ++
    [("optional", .bool f.optional), ("rest", .bool f.rest)] ++
    proseMember "description" f.description)

def Atom.toJson (a : Atom) : Json :=
  .object ([("call_name", .string a.name), ("wire_tag", .string a.tag),
      ("fields", .array (a.fields.map Field.toJson))] ++
    proseMember "description" a.description ++ proseMember "category" a.category)

def tableJson (atoms : List Atom) : Json := .object [("atoms", .array (atoms.map Atom.toJson))]

def Kind.ofName? (name : String) : Option Kind := Kind.all.find? (·.name = name)

def Family.ofName? (name : String) : Option Family := Family.all.find? (·.name = name)

theorem Kind.ofName?_name (kind : Kind) : Kind.ofName? kind.name = some kind := by
  cases kind <;> decide

theorem Family.ofName?_name (base : Family) : Family.ofName? base.name = some base := by
  cases base <;> decide

namespace Json.Syntax

def kind? (syn : Syntax) : Option Kind := do Kind.ofName? (← syn.choice?)

def family? (syn : Syntax) : Option Family := do Family.ofName? (← syn.choice?)

def field? (syn : Syntax) : Option Field := do
  let form ← syn.form? ["key", "kind"] ["base", "optional", "rest", "description"]
  let key ← form.required "key" string?
  let kind ← form.required "kind" kind?
  let base ← form.nullable "base" family?
  let optional ← form.defaulted "optional" false bool?
  let rest ← form.defaulted "rest" false bool?
  let description ← form.defaulted "description" "" string?
  return { key, kind, base, optional, rest, description }

def atom? (syn : Syntax) : Option Atom := do
  let form ← syn.form? ["call_name", "wire_tag"] ["fields", "description", "category"]
  let name ← form.required "call_name" string?
  let tag ← form.required "wire_tag" string?
  let fields ← form.defaulted "fields" [] (list? field?)
  let description ← form.defaulted "description" "" string?
  let category ← form.defaulted "category" "" string?
  return { name, tag, fields, description, category }

def table? (syn : Syntax) : Option (List Atom) := do
  (← syn.form? ["atoms"] []).required "atoms" (list? atom?)

end Json.Syntax

def Atom.read? (text : String) : Option Atom := do (← Json.Syntax.read? text).atom?

def readTable? (text : String) : Option (List Atom) := do (← Json.Syntax.read? text).table?

end SkillGraph
