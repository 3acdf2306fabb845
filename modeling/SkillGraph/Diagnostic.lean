import SkillGraph.Json.Form

/-! Diagnostics: what is reported when a text, a record or a registry is refused. -/
namespace SkillGraph

inductive Category where
  | lexical | structural | binding | resolution | wire
  deriving DecidableEq, Repr

inductive ErrorCode where
  | forbiddenChar
  | bareAssignment
  | unterminatedQuote
  | mismatchedParens
  | leftoverTokens
  | missingOperand
  | invalidOperand
  | emptyExpression
  | notANode
  | argCount
  | emptyArray
  | registryNotInitialized
  | registryInvalid
  | wireFormat
  deriving DecidableEq, Repr

namespace ErrorCode

def all : List ErrorCode :=
  [.forbiddenChar, .bareAssignment, .unterminatedQuote, .mismatchedParens, .leftoverTokens,
    .missingOperand, .invalidOperand, .emptyExpression, .notANode, .argCount, .emptyArray,
    .registryNotInitialized, .registryInvalid, .wireFormat]

def text : ErrorCode → String
  | .forbiddenChar => "FORBIDDEN_CHAR"
  | .bareAssignment => "BARE_ASSIGNMENT"
  | .unterminatedQuote => "UNTERMINATED_QUOTE"
  | .mismatchedParens => "MISMATCHED_PARENS"
  | .leftoverTokens => "LEFTOVER_TOKENS"
  | .missingOperand => "MISSING_OPERAND"
  | .invalidOperand => "INVALID_OPERAND"
  | .emptyExpression => "EMPTY_EXPRESSION"
  | .notANode => "NOT_A_NODE"
  | .argCount => "ARG_COUNT"
  | .emptyArray => "EMPTY_ARRAY"
  | .registryNotInitialized => "REGISTRY_NOT_INITIALIZED"
  | .registryInvalid => "REGISTRY_INVALID"
  | .wireFormat => "WIRE_FORMAT"

def category : ErrorCode → Category
  | .forbiddenChar | .bareAssignment | .unterminatedQuote => .lexical
  | .argCount | .emptyArray => .binding
  | .registryNotInitialized | .registryInvalid => .resolution
  | .wireFormat => .wire
  | _ => .structural

theorem mem_all (code : ErrorCode) : code ∈ all := by cases code <;> decide

end ErrorCode

structure Context where
  expression : Option String := none
  token : Option String := none
  /-- What was left on the evaluation stack, bottom first. -/
  stack : List String := []
  deriving DecidableEq, Repr

/-- An error as reported. The code is text, since reports are also read from records. -/
structure Diagnostic where
  code : String
  message : String
  suggestion : Option String := none
  context : Option Context := none
  deriving DecidableEq, Repr

namespace Diagnostic

def expression? (d : Diagnostic) : Option String := d.context.bind (·.expression)

def token? (d : Diagnostic) : Option String := d.context.bind (·.token)

/-- A code outside the table counts as structural. -/
def category (d : Diagnostic) : Category :=
  match ErrorCode.all.find? (·.text = d.code) with
  | some code => code.category
  | none => .structural

def suggesting (d : Diagnostic) (text : String) : Diagnostic :=
  { d with suggestion := some text }

/-- Names the expression at fault unless one is named already. -/
def inExpression (d : Diagnostic) (text : String) : Diagnostic :=
  let context := d.context.getD {}
  { d with context := some { context with expression := some (context.expression.getD text) } }

def atToken (d : Diagnostic) (text : String) : Diagnostic :=
  { d with context := some { d.context.getD {} with token := some text } }

def leaving (d : Diagnostic) (stack : List String) : Diagnostic :=
  { d with context := some { d.context.getD {} with stack } }

def line (d : Diagnostic) : String :=
  "[" ++ d.code ++ "] " ++ d.message ++
    (match d.expression? with | some text => " in `" ++ text ++ "`" | none => "") ++
    (match d.suggestion with | some text => " (suggestion: " ++ text ++ ")" | none => "")

end Diagnostic

/-- A member that is left out when there is nothing to say. -/
def textMember (name : String) (text : Option String) : List (String × Json) :=
  match text with
  | some s => [(name, .string s)]
  | none => []

def Context.toJson (c : Context) : Json :=
  .object (textMember "expression" c.expression ++ textMember "token" c.token ++
    if c.stack.isEmpty then [] else [("stack", .strings c.stack)])

def Diagnostic.toJson (d : Diagnostic) : Json :=
  .object ([("code", .string d.code), ("message", .string d.message)] ++
    textMember "suggestion" d.suggestion ++
    match d.context with
    | some context => [("context", context.toJson)]
    | none => [])

namespace Json

def Syntax.context? (syn : Syntax) : Option Context := do
  let form ← syn.form? ["expression", "token"] ["stack"]
  let expression ← form.nullable "expression" Syntax.string?
  let token ← form.nullable "token" Syntax.string?
  let stack ← form.defaulted "stack" [] (Syntax.list? Syntax.string?)
  return { expression, token, stack }

def Syntax.diagnostic? (syn : Syntax) : Option Diagnostic := do
  let form ← syn.form? ["code", "message", "suggestion", "context"] []
  let code ← form.required "code" Syntax.string?
  let message ← form.required "message" Syntax.string?
  let suggestion ← form.nullable "suggestion" Syntax.string?
  let context ← form.nullable "context" Syntax.context?
  return { code, message, suggestion, context }

end Json

def Diagnostic.read? (text : String) : Option Diagnostic := do
  (← Json.Syntax.read? text).diagnostic?

end SkillGraph
