import SkillGraph.Json.Numeral
import SkillGraph.Json.Syntax

/-! The reading of JSON text, by recursive descent over its characters. -/
namespace SkillGraph.Json

/-- One character of a string literal: written as itself, or as a 16-bit code unit. -/
inductive Piece where
  | char (c : Char)
  | unit (n : Nat)

/-- The text of a string literal. A high surrogate must be followed by a low one. -/
def textOf? : List Piece → Option (List Char)
  | [] => some []
  | .char c :: rest => (textOf? rest).map (c :: ·)
  | .unit high :: .unit low :: rest =>
    if 0xD800 ≤ high && high < 0xDC00 then
      if 0xDC00 ≤ low && low < 0xE000 then
        (textOf? rest).map
          (Char.ofNat (0x10000 + (high - 0xD800) * 0x400 + (low - 0xDC00)) :: ·)
      else none
    else if 0xDC00 ≤ high && high < 0xE000 then none
    else (textOf? (.unit low :: rest)).map (Char.ofNat high :: ·)
  | .unit n :: rest =>
    if 0xD800 ≤ n && n < 0xE000 then none else (textOf? rest).map (Char.ofNat n :: ·)

namespace Reader

def isSpace (c : Char) : Bool := c = ' ' || c = '\t' || c = '\n' || c = '\r'

def skipSpace (cs : List Char) : List Char := cs.dropWhile isSpace

def hexValue? (c : Char) : Option Nat :=
  if '0' ≤ c && c ≤ '9' then some (c.toNat - '0'.toNat)
  else if 'a' ≤ c && c ≤ 'f' then some (c.toNat - 'a'.toNat + 10)
  else if 'A' ≤ c && c ≤ 'F' then some (c.toNat - 'A'.toNat + 10)
  else none

def codeUnit? (a b c d : Char) : Option Nat := do
  return ((← hexValue? a) * 16 + (← hexValue? b)) * 256 + (← hexValue? c) * 16 + (← hexValue? d)

def unescaped? : Char → Option Char
  | '"' => some '"'
  | '\\' => some '\\'
  | '/' => some '/'
  | 'b' => some '\x08'
  | 'f' => some '\x0c'
  | 'n' => some '\n'
  | 'r' => some '\r'
  | 't' => some '\t'
  | _ => none

def pieces : List Char → Option (List Piece × List Char)
  | [] => none
  | '"' :: rest => some ([], rest)
  | '\\' :: 'u' :: a :: b :: c :: d :: rest => do
    let unit ← codeUnit? a b c d
    let (ps, rest) ← pieces rest
    return (.unit unit :: ps, rest)
  | '\\' :: e :: rest => do
    let c ← unescaped? e
    let (ps, rest) ← pieces rest
    return (.char c :: ps, rest)
  | c :: rest => do
    if c.toNat < 32 then none
    let (ps, rest) ← pieces rest
    return (.char c :: ps, rest)

def string (cs : List Char) : Option (Option String × List Char) :=
  (pieces cs).map fun (ps, rest) => ((textOf? ps).map String.ofList, rest)

def digitRun (cs : List Char) : List Char × List Char := cs.span Char.isDigit

def fraction : List Char → Option (Option (List Char) × List Char)
  | '.' :: rest => match digitRun rest with
    | ([], _) => none
    | (ds, rest) => some (some ds, rest)
  | rest => some (none, rest)

def exponentDigits (negative : Bool) (cs : List Char) : Option (Option Int × List Char) :=
  match digitRun cs with
  | ([], _) => none
  | (ds, rest) =>
    let n : Int := Number.ofDigits ds
    some (some (if negative then -n else n), rest)

def exponentPart : List Char → Option (Option Int × List Char)
  | e :: rest =>
    if e = 'e' || e = 'E' then
      match rest with
      | '-' :: rest => exponentDigits true rest
      | '+' :: rest => exponentDigits false rest
      | rest => exponentDigits false rest
    else some (none, e :: rest)
  | [] => some (none, [])

def unsigned (negative : Bool) (cs : List Char) : Option (Option Number × List Char) := do
  let (whole, rest) := digitRun cs
  if whole = [] || (1 < whole.length && whole.head? = some '0') then none
  let (fraction, rest) ← fraction rest
  let (exponent, rest) ← exponentPart rest
  return (Number.ofParts? negative whole fraction exponent, rest)

def number : List Char → Option (Option Number × List Char)
  | '-' :: rest => unsigned true rest
  | rest => unsigned false rest

mutual

/-- The first value of the text and what follows it. Two steps of fuel for every character are
enough, since a list of items or members starts behind a bracket, brace or comma. -/
def value : Nat → List Char → Option (Syntax × List Char)
  | 0, _ => none
  | fuel + 1, cs =>
    match skipSpace cs with
    | 'n' :: 'u' :: 'l' :: 'l' :: rest => some (.null, rest)
    | 't' :: 'r' :: 'u' :: 'e' :: rest => some (.bool true, rest)
    | 'f' :: 'a' :: 'l' :: 's' :: 'e' :: rest => some (.bool false, rest)
    | '"' :: rest => (string rest).map fun (s, rest) => (.string s, rest)
    | '[' :: rest => match skipSpace rest with
      | ']' :: rest => some (.array [], rest)
      | rest => (items fuel rest).map fun (vs, rest) => (.array vs, rest)
    | '\x7b' :: rest => match skipSpace rest with
      | '\x7d' :: rest => some (.object [], rest)
      | rest => (members fuel rest).map fun (ms, rest) => (.object ms, rest)
    | rest => (number rest).map fun (n, rest) => (.number n, rest)

def items : Nat → List Char → Option (List Syntax × List Char)
  | 0, _ => none
  | fuel + 1, cs => do
    let (v, rest) ← value fuel cs
    match skipSpace rest with
    | ',' :: rest =>
      let (vs, rest) ← items fuel rest
      return (v :: vs, rest)
    | ']' :: rest => return ([v], rest)
    | _ => none

def members : Nat → List Char → Option (List (Option String × Syntax) × List Char)
  | 0, _ => none
  | fuel + 1, cs => do
    let (name, rest) ← match skipSpace cs with
      | '"' :: rest => string rest
      | _ => none
    let (v, rest) ← match skipSpace rest with
      | ':' :: rest => value fuel rest
      | _ => none
    match skipSpace rest with
    | ',' :: rest =>
      let (ms, rest) ← members fuel rest
      return ((name, v) :: ms, rest)
    | '\x7d' :: rest => return ([(name, v)], rest)
    | _ => none

end

end Reader

namespace Syntax

def first? (text : String) : Option (Syntax × List Char) :=
  let cs := text.toList
  Reader.value (2 * cs.length + 2) cs

def read? (text : String) : Option Syntax := do
  let (syn, rest) ← first? text
  if (Reader.skipSpace rest).isEmpty then some syn else none

end Syntax

def read? (text : String) : Option Json := do (← Syntax.read? text).value? Syntax.nesting

end SkillGraph.Json
