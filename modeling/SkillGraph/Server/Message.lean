import SkillGraph.Json.Form
import SkillGraph.Json.Writer

/-! Requests and answers of the server, one JSON text to a line. -/
namespace SkillGraph.Server

/-- A request without an id asks for no answer. -/
structure Request where
  id : Option Json
  method : String
  params : Json

/-- Parameters lie one level inside the request. -/
def Request.ofSyntax? (syn : Json.Syntax) : Option Request := do
  let form ← syn.form? ["jsonrpc", "id", "method"] ["params"]
  let value := Json.Syntax.value? (Json.Syntax.nesting - 1)
  let _ ← form.required "jsonrpc" Json.Syntax.string?
  let id ← form.nullable "id" value
  let method ← form.required "method" Json.Syntax.string?
  let params ← form.nullable "params" value
  return { id, method, params := params.getD (.object []) }

def Request.read? (line : String) : Option Request := do ofSyntax? (← Json.Syntax.read? line)

structure Failure where
  code : Int
  message : String
  data : Option Json := none

namespace Failure

/-- What is wrong with the line is left open. -/
def unreadable : Failure := ⟨-32700, "Parse error: *", none⟩

def unknownMethod (method : String) : Failure := ⟨-32601, "Method not found: " ++ method, none⟩

def invalidParams (message : String) : Failure := ⟨-32602, message, none⟩

def unknownAtom (name : String) (similar : List String) : Failure :=
  ⟨-32602, "Unknown atom: " ++ name, some (.object [("similar", .strings similar)])⟩

end Failure

abbrev Outcome := Except Failure Json

def Failure.toJson (f : Failure) : Json :=
  .object ([("code", .number (.integer f.code)), ("message", .string f.message)] ++
    match f.data with
    | some data => [("data", data)]
    | none => [])

def answer (id : Option Json) (outcome : Outcome) : Json :=
  .object ([("jsonrpc", .string "2.0")] ++
    (match id with
      | some id => [("id", id)]
      | none => []) ++
    [match outcome with
      | .ok result => ("result", result)
      | .error failure => ("error", failure.toJson)])

end SkillGraph.Server
