import SkillGraph.Cause
import SkillGraph.Operator
import SkillGraph.Text.Classes

/-! Lexemes and tokens. A text splits at white space, quoted spans and operator characters; adjacent
operator characters that spell a two-character operator then join, even across white space. Tokens
are lexemes by the part that they play in an expression. -/
namespace SkillGraph.Lexeme

/-- Full-width punctuation, which is never meant. -/
def forbidden : List Char := ['：', '，', '、', '“', '”', '‘', '’', '（', '）']

def forbiddenIn (cs : List Char) : List Char := (cs.filter (· ∈ forbidden)).eraseDups

/-- Whether some equals sign is part of no comparison, where `before` stands in front of the text.
Signs pair up from the left; a single one needs `!`, `<` or `>` directly before it. -/
def bareEquals (before : Option Char) : List Char → Bool
  | [] => false
  | '=' :: '=' :: rest => bareEquals (some '=') rest
  | '=' :: rest =>
    if before = some '!' || before = some '<' || before = some '>' then
      bareEquals (some '=') rest
    else true
  | c :: rest => bareEquals (some c) rest

def symbols : List Char :=
  ['+', '-', '*', '/', '%', '(', ')', ',', '!', '<', '>', '=', '&', '|']

def pairs : List (List Char) :=
  [['&', '&'], ['|', '|'], ['>', '='], ['<', '='], ['=', '='], ['!', '=']]

/-- Puts the word that was collected, last character first, before the pieces behind it. -/
def close (word : List Char) (pieces : List (List Char)) : List (List Char) :=
  if word.isEmpty then pieces else word.reverse :: pieces

mutual

/-- The pieces of a text outside of quotes, where `word` was collected before it. No answer if the
last quoted span is not closed. -/
def split (word : List Char) : List Char → Option (List (List Char))
  | [] => some (close word [])
  | c :: rest =>
    if c = '"' then (splitQuoted [c] rest).map (close word)
    else if Text.isBlank c then (split [] rest).map (close word)
    else if c ∈ symbols then (split [] rest).map fun pieces => close word ([c] :: pieces)
    else split (c :: word) rest

def splitQuoted (span : List Char) : List Char → Option (List (List Char))
  | [] => none
  | c :: rest =>
    if c = '"' then (split [] rest).map ((c :: span).reverse :: ·)
    else splitQuoted (c :: span) rest

end

def join : List (List Char) → List (List Char)
  | a :: b :: rest => if a ++ b ∈ pairs then (a ++ b) :: join rest else a :: join (b :: rest)
  | pieces => pieces

def ofChars (cs : List Char) : Except Cause (List (List Char)) :=
  let found := forbiddenIn cs
  if !found.isEmpty then .error (.forbiddenChars found)
  else if bareEquals none cs then .error .bareAssignment
  else match split [] cs with
    | some pieces => .ok (join pieces)
    | none => .error .unterminatedQuote

end Lexeme

def lexemes (text : String) : Except Cause (List String) :=
  (Lexeme.ofChars text.toList).map (·.map String.ofList)

inductive Token where
  | opening
  | closing
  | comma
  | operator (op : Operator)
  /-- A literal, a name or anything else without a part of its own. -/
  | word (text : String)
  deriving DecidableEq, Repr

namespace Token

def ofLexeme (lexeme : String) : Token :=
  if lexeme = "(" then .opening
  else if lexeme = ")" then .closing
  else if lexeme = "," then .comma
  else match Operator.ofSymbol? lexeme with
    | some op => .operator op
    | none => .word lexeme

def lexeme : Token → String
  | .opening => "("
  | .closing => ")"
  | .comma => ","
  | .operator op => op.symbol
  | .word text => text

theorem lexeme_ofLexeme (s : String) : (ofLexeme s).lexeme = s := by
  unfold ofLexeme Operator.ofSymbol?
  split
  · simp [lexeme, *]
  split
  · simp [lexeme, *]
  split
  · simp [lexeme, *]
  · split <;> simp_all [lexeme]
    split at * <;> simp_all
    all_goals subst_vars; rfl

end Token

end SkillGraph
