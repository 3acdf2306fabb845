import SkillGraph.Diagnostic

/-! Why an input is refused, and how each cause is worded. -/
namespace SkillGraph

inductive Cause where
  /-- Full-width punctuation, each character once in the order of the text. -/
  | forbiddenChars (found : List Char)
  | bareAssignment
  | unterminatedQuote
  | mismatchedParens (token : Option String)
  /-- More than one item is left, bottom first; `guess` is an unknown name and the registered name
  most like it. -/
  | leftoverTokens (stack : List String) (guess : Option (String × String))
  | missingOperand (operator : String)
  | invalidOperand (operator found : String)
  | emptyExpression
  | notANode (found : String)
  | argCount (call : String) (expected got : Nat) (usage : Option String)
  | emptyArray (call field : String)
  | registryNotInitialized
  | registryInvalid (details : String)
  | wireFormat (details : String)
  deriving DecidableEq, Repr

namespace Cause

def code : Cause → ErrorCode
  | .forbiddenChars _ => .forbiddenChar
  | .bareAssignment => .bareAssignment
  | .unterminatedQuote => .unterminatedQuote
  | .mismatchedParens _ => .mismatchedParens
  | .leftoverTokens .. => .leftoverTokens
  | .missingOperand _ => .missingOperand
  | .invalidOperand .. => .invalidOperand
  | .emptyExpression => .emptyExpression
  | .notANode _ => .notANode
  | .argCount .. => .argCount
  | .emptyArray .. => .emptyArray
  | .registryNotInitialized => .registryNotInitialized
  | .registryInvalid _ => .registryInvalid
  | .wireFormat _ => .wireFormat

def message : Cause → String
  | .forbiddenChars found =>
    "Expression contains full-width punctuation: " ++ String.ofList found
  | .bareAssignment => "Found '=' outside of a comparison operator"
  | .unterminatedQuote => "String literal is missing its closing '\"'"
  | .mismatchedParens _ => "Mismatched parentheses"
  | .leftoverTokens stack _ =>
    "Expression did not reduce to a single value, left with: [" ++ ", ".intercalate stack ++ "]"
  | .missingOperand operator => "Operator '" ++ operator ++ "' is missing an operand"
  | .invalidOperand operator found =>
    "Operator '" ++ operator ++ "' cannot be applied to bare value '" ++ found ++ "'"
  | .emptyExpression => "Empty expression"
  | .notANode found => "Expression produced a bare value, not a node: " ++ found
  | .argCount call expected got _ =>
    call ++ "() expects at least " ++ toString expected ++ " argument" ++
      (if expected = 1 then "" else "s") ++ ", got " ++ toString got
  | .emptyArray call field =>
    call ++ "() array field '" ++ field ++ "' requires at least one element"
  | .registryNotInitialized => "Atom registry not initialized"
  | .registryInvalid details => "Invalid atom registry: " ++ details
  | .wireFormat details => "Malformed node record: " ++ details

def suggestion : Cause → Option String
  | .forbiddenChars _ =>
    some "Replace full-width colons, commas, quotes and parentheses with ASCII ones"
  | .bareAssignment => some "Use '==' to compare; assignment is not part of the language"
  | .mismatchedParens _ => some "Check that every '(' has a matching ')'"
  | .leftoverTokens _ none => some "Check for unknown function names or missing operators"
  | .leftoverTokens _ (some (name, best)) =>
    some ("Unknown call '" ++ name ++ "'. Did you mean " ++ best ++ "?")
  | .invalidOperand .. => some "Operands must be numbers, booleans, bound constants or calls"
  | .argCount _ _ _ usage => usage.map ("Usage: " ++ ·)
  | .registryNotInitialized => some "Install a registry before parsing or rendering"
  | .unterminatedQuote | .missingOperand _ | .emptyExpression | .notANode _ | .emptyArray ..
  | .registryInvalid _ | .wireFormat _ => none

def token : Cause → Option String
  | .forbiddenChars found => some (String.ofList found)
  | .bareAssignment => some "="
  | .unterminatedQuote => some "\""
  | .mismatchedParens token => token
  | .missingOperand operator => some operator
  | .invalidOperand _ found => some found
  | .notANode found => some found
  | .argCount call .. => some call
  | .emptyArray call _ => some call
  | .leftoverTokens .. | .emptyExpression | .registryNotInitialized | .registryInvalid _
  | .wireFormat _ => none

def context (cause : Cause) : Option Context :=
  match cause with
  | .leftoverTokens stack _ => some { stack }
  | _ => cause.token.map fun text => { token := some text }

def diagnostic (cause : Cause) : Diagnostic where
  code := cause.code.text
  message := cause.message
  suggestion := cause.suggestion
  context := cause.context

theorem diagnostic_category (cause : Cause) : cause.diagnostic.category = cause.code.category := by
  cases cause <;> rfl

end Cause

end SkillGraph
