import SkillGraph.Server.Tool
import SkillGraph.Text.Classes

/-! The server: what it answers to a request, to a line, and to a sequence of lines. -/
namespace SkillGraph.Server

def greeting (c : Compiler) : Json :=
  .object [
    ("protocolVersion", .string "2025-11-25"),
    ("capabilities", .object [("tools", .object [])]),
    ("serverInfo", .object [("name", .string "atomgraph"), ("version", .string "0.1.0")]),
    ("instructions", .string (
      "Atomgraph compiles expressions such as `Heal(Self(), GetAttr(MaxHealth) * 0.02)` into " ++
      "wire-format node graphs and renders them back. " ++ toString c.registry.size ++
      " atoms are registered; use 'list_atoms' and 'describe' to explore them."))]

def callTool (c : Compiler) (params : Json) : Outcome := do
  let some name := (params.member? "name").bind Json.string?
    | throw (.invalidParams "Missing tool name")
  let some tool := Tool.ofName? name | throw (.invalidParams ("Unknown tool: " ++ name))
  let result ← tool.run c ((params.member? "arguments").getD (.object []))
  return .object [
    ("content", .array [.object [("type", .string "text"), ("text", .string result.write)]]),
    ("structuredContent", result),
    ("isError", .bool false)]

def respond (c : Compiler) (request : Request) : Outcome :=
  match request.method with
  | "initialize" => .ok (greeting c)
  | "initialized" | "notifications/initialized" | "ping" => .ok (.object [])
  | "tools/list" => .ok (.object [("tools", .array (Tool.all.map Tool.toJson))])
  | "tools/call" => callTool c request.params
  | method => match Tool.ofName? method with
    | some tool => tool.run c request.params
    | none => .error (.unknownMethod method)

/-- The answer to a line of text. Blank lines and requests without an id have none. -/
def answerLine (c : Compiler) (line : String) : Option Json :=
  let line := Text.trim line
  if line = "" then none
  else match Request.read? line with
    | none => some (answer none (.error .unreadable))
    | some request => request.id.map fun id => answer (some id) (respond c request)

inductive Reaction where
  | stop
  | silence
  | reply (text : String)
  deriving DecidableEq, Repr

/-- What the server does with a line of bytes. It stops at one that is not text. -/
def react (c : Compiler) (line : ByteArray) : Reaction :=
  match String.fromUTF8? line with
  | none => .stop
  | some text => match answerLine c text with
    | none => .silence
    | some json => .reply json.write

def replies (c : Compiler) : List ByteArray → List String
  | [] => []
  | line :: rest => match react c line with
    | .stop => []
    | .silence => replies c rest
    | .reply text => text :: replies c rest

/-- The lines of a list of bytes, where `line` was collected before it. The last line may end
without a line feed. -/
def linesFrom (line : ByteArray) : List UInt8 → List ByteArray
  | [] => if line.isEmpty then [] else [line]
  | byte :: rest => if byte = 10 then line :: linesFrom .empty rest else linesFrom (line.push byte) rest

def serve (c : Compiler) (input : List UInt8) : List String := replies c (linesFrom .empty input)

end SkillGraph.Server
