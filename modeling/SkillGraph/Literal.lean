import SkillGraph.Node
import SkillGraph.Text.Classes

/-! Literals: what a word of an expression stands for on its own. -/
namespace SkillGraph.Literal

/-- The key of a bound constant, which is written in braces. -/
def boundKey? (cs : List Char) : Option (List Char) :=
  match cs with
  | '\x7b' :: rest =>
    let key := rest.dropLast
    if rest.getLast? = some '\x7d' && !key.isEmpty && key.all Text.isWord then some key else none
  | _ => none

def unsigned? (cs : List Char) : Option Float :=
  match cs.span Char.isDigit with
  | ([], _) => none
  | (whole, []) => some (Number.ofDecimal whole [] 0)
  | (whole, '.' :: fraction) =>
    if !fraction.isEmpty && fraction.all Char.isDigit then
      some (Number.ofDecimal whole fraction 0)
    else none
  | _ => none

/-- A decimal numeral with an optional sign. Digits of other scripts make no numeral. -/
def number? (cs : List Char) : Option Float :=
  match cs with
  | '-' :: rest => (unsigned? rest).map (- ·)
  | '+' :: rest => unsigned? rest
  | _ => unsigned? cs

def unquote? (quote : Char) (cs : List Char) : Option (List Char) :=
  match cs with
  | c :: rest => if c = quote && rest.getLast? = some quote then some rest.dropLast else none
  | [] => none

def bool? (word : String) : Option Bool :=
  if word ∈ ["true", "True", "TRUE"] then some true
  else if word ∈ ["false", "False", "FALSE"] then some false
  else none

def text (word : String) : String :=
  match (unquote? '"' word.toList).or (unquote? '\x27' word.toList) with
  | some inner => String.ofList inner
  | none => word

def value (word : String) : Value :=
  match boundKey? word.toList with
  | some key => .node (.bound (String.ofList key))
  | none =>
    if word = "Infinity" then .node (.literal (1.0 / 0.0))
    else match number? word.toList with
      | some x => .node (.literal x)
      | none => match bool? word with
        | some b => .node (.boolean b)
        | none => .text (text word)

end SkillGraph.Literal
