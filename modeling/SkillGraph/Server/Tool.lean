import SkillGraph.Compiler
import SkillGraph.Record.Reader
import SkillGraph.Record.Writer
import SkillGraph.Registry.Help
import SkillGraph.Server.Message

/-! The tools of the server. Each takes its arguments as members of one JSON object. -/
namespace SkillGraph.Server

def Failure.ofDiagnostic (d : Diagnostic) : Failure := ⟨-32001, d.line, some d.toJson⟩

inductive Tool where
  | parse
  | parseBatch
  | render
  | roundtrip
  | describe
  | listAtoms
  deriving DecidableEq, Repr

namespace Tool

def all : List Tool := [.parse, .parseBatch, .render, .roundtrip, .describe, .listAtoms]

def name : Tool → String
  | .parse => "parse"
  | .parseBatch => "parse_batch"
  | .render => "render"
  | .roundtrip => "roundtrip"
  | .describe => "describe"
  | .listAtoms => "list_atoms"

def ofName? (name : String) : Option Tool := all.find? (·.name = name)

theorem ofName?_name (tool : Tool) : ofName? tool.name = some tool := by cases tool <;> decide

def description : Tool → String
  | .parse => "Compile expression text into a wire-format node graph"
  | .parseBatch => "Compile several expressions; failures are reported per item"
  | .render => "Render a wire-format node back into expression text"
  | .roundtrip => "Parse an expression and render it again, showing its normal form"
  | .describe => "Help for one atom by call name or wire tag; categories when omitted"
  | .listAtoms => "List registered atoms, optionally filtered by category"

/-- The name and the type of the one argument, and whether a call must give it. -/
def argument : Tool → String × Json × Bool
  | .parse | .roundtrip => ("expression", .object [("type", .string "string")], true)
  | .parseBatch =>
    ("expressions",
      .object [("type", .string "array"), ("items", .object [("type", .string "string")])], true)
  | .render => ("node", .object [("type", .string "object")], true)
  | .describe => ("name", .object [("type", .string "string")], false)
  | .listAtoms => ("category", .object [("type", .string "string")], false)

def toJson (tool : Tool) : Json :=
  let (argument, type, required) := tool.argument
  let required : List (String × Json) :=
    if required then [("required", .strings [argument])] else []
  let schema := [("type", .string "object"), ("properties", .object [(argument, type)])] ++ required
  .object [("name", .string tool.name), ("description", .string tool.description),
    ("inputSchema", .object schema)]

end Tool

def stringArgument (args : Json) (name : String) : Except Failure String :=
  match (args.member? name).bind Json.string? with
  | some text => .ok text
  | none => .error (.invalidParams ("Missing " ++ name ++ " argument"))

def compiled {α : Type} (result : Except Diagnostic α) : Except Failure α :=
  result.mapError .ofDiagnostic

def parse (c : Compiler) (args : Json) : Outcome := do
  let n ← compiled (c.parseGraph (← stringArgument args "expression"))
  return .object [("node", n.toJson)]

def batchItem (c : Compiler) (index : Nat) (item : Json) : Json :=
  let outcome : String × Json := match item.string? with
    | some text => match c.parseGraph text with
      | .ok n => ("node", n.toJson)
      | .error d => ("error", d.toJson)
    | none => ("error", .object
      [("code", .string "INVALID_PARAMS"), ("message", .string "expression must be a string")])
  .object [("index", .nat index), outcome]

def parseBatch (c : Compiler) (args : Json) : Outcome :=
  match (args.member? "expressions").bind Json.array? with
  | some items =>
    let results := items.mapIdx (batchItem c)
    let failed := results.countP fun result => (result.member? "error").isSome
    .ok (.object [("results", .array results), ("failed", .nat failed)])
  | none => .error (.invalidParams "Missing expressions argument (array of strings)")

def render (c : Compiler) (args : Json) : Outcome := do
  let some record := args.member? "node" | throw (.invalidParams "Missing node argument")
  let n ← compiled ((Node.ofJson record).mapError (·.cause.diagnostic))
  return .object [("expression", .string (c.spellGraph n))]

/-- An expression is stable if its graph is spelled as an expression of the same graph. -/
def roundtrip (c : Compiler) (args : Json) : Outcome := do
  let n ← compiled (c.parseGraph (← stringArgument args "expression"))
  let spelled := c.spellGraph n
  let stable := match c.parseGraph spelled with
    | .ok again => again == n
    | .error _ => false
  return .object [("node", n.toJson), ("expression", .string spelled), ("stable", .bool stable)]

def describe (c : Compiler) (args : Json) : Outcome :=
  match (args.member? "name").bind Json.string? with
  | some name => match c.registry.help? name with
    | some help => .ok help
    | none => .error (.unknownAtom name (c.registry.suggestions name))
  | none => .ok (.object
      [("atoms", .nat c.registry.size), ("categories", .strings c.registry.categories)])

def listAtoms (c : Compiler) (args : Json) : Outcome :=
  .ok (.object
    [("atoms", .array (c.registry.summaries ((args.member? "category").bind Json.string?)))])

def Tool.run (c : Compiler) (args : Json) : Tool → Outcome
  | .parse => Server.parse c args
  | .parseBatch => Server.parseBatch c args
  | .render => Server.render c args
  | .roundtrip => Server.roundtrip c args
  | .describe => Server.describe c args
  | .listAtoms => Server.listAtoms c args

end SkillGraph.Server
