import SkillGraph.Proofs.Infix.Execution
import SkillGraph.Proofs.Infix.Text
import SkillGraph.Proofs.Spelling.Forms
import SkillGraph.Proofs.Spelling.Literals

/-! The infix expression behind the spelling of a graph. It is written with all parentheses it
needs, so that parsing its text evaluates it. -/
namespace SkillGraph

namespace Infix

/-- A word, which calls the atom of that name if there is one. -/
def name (r : Registry) (w : String) : Infix := if r.isCallName w then .bare w else .word w

/-- A number with its sign set is the negation of a numeral. NaN has no numeral; the word for it is
a word like any other. -/
def numeral (r : Registry) (x : Float) : Infix :=
  if x.isNaN then name r (spellNumber x)
  else if Number.isUnsigned x then .word (spellNumber x)
  else .unary .negate (.word (spellNumber (-x)))

end Infix

mutual

def Node.expression (r : Registry) : Node → Infix
  | .constant x key => if key = "" then .numeral r x else .word ("\x7b" ++ key ++ "\x7d")
  | .boolean b => .word (spellBool b)
  | .negate operand => .unary .negate (.group (operand.expression r))
  | .not operand => .unary .not (.group (operand.expression r))
  | .operation group code left right =>
    match group.operator? code with
    | some op => .group (.binary op (left.expression r) (right.expression r))
    | none => .word ""
  | .call tag fields =>
    match r.atomTagged? tag with
    | some a => .call a.name (fieldExpressions r fields)
    | none => .word ""

def Value.expression (r : Registry) : Value → Infix
  | .number x => .numeral r x
  | .bool b => .word (spellBool b)
  | .text s => .word ("\"" ++ s ++ "\"")
  | .node n => n.expression r
  | .list _ => .word ""

def itemExpressions (r : Registry) : List Value → List Infix
  | [] => []
  | item :: rest => item.expression r :: itemExpressions r rest

def fieldExpressions (r : Registry) : List (String × Value) → List Infix
  | [] => []
  | (_, .list items) :: rest => itemExpressions r items ++ fieldExpressions r rest
  | (_, v) :: rest => v.expression r :: fieldExpressions r rest

end

def Value.expressions (r : Registry) : Value → List Infix
  | .list items => itemExpressions r items
  | v => [v.expression r]

variable {r : Registry} {F : Form}

theorem fieldExpressions_cons (key : String) (v : Value) (rest : List (String × Value)) :
    fieldExpressions r ((key, v) :: rest) = v.expressions r ++ fieldExpressions r rest := by
  cases v <;> rfl

theorem length_itemExpressions (items : List Value) :
    (itemExpressions r items).length = items.length := by
  induction items with
  | nil => rfl
  | cons item rest ih => rw [itemExpressions, List.length_cons, List.length_cons, ih]

theorem Value.Has.expressions {kind : Kind} {v : Value} (has : v.Has r F kind) :
    v.expressions r = [v.expression r] := by
  cases v with
  | list items => exact has.elim
  | _ => rfl

theorem OpGroup.of_operator? {group : OpGroup} {code : UInt8} {op : BinaryOp}
    (found : group.operator? code = some op) : op.group = group ∧ op.code = code := by
  cases group <;> simp only [operator?, Option.map_eq_some_iff] at found
  all_goals obtain ⟨op, stored, rfl⟩ := found
  · unfold Arithmetic.ofCode? at stored
    split at stored <;> cases stored <;> exact ⟨rfl, rfl⟩
  · unfold Logic.ofCode? at stored
    split at stored <;> cases stored <;> exact ⟨rfl, rfl⟩
  · unfold Comparison.ofCode? at stored
    split at stored <;> cases stored <;> exact ⟨rfl, rfl⟩

namespace Literal

structure Spells (r : Registry) (w : String) (v : Value) : Prop where
  word : Lexeme.Word w.toList
  free : r.isCallName w = false
  value : Literal.value w = v

namespace Spells

theorem number {x : Float} (unsigned : Number.isUnsigned x = true) :
    Spells r (spellNumber x) (.node (.literal x)) := by
  rcases Number.unsigned?_spellNumber unsigned with ⟨spelled, rfl⟩ | ⟨read, digits⟩
  · rw [spelled]
    exact ⟨Lexeme.word_of_isName (by decide), Registry.isCallName_eq_false_of_reserved (by decide),
      rfl⟩
  · obtain ⟨c, rest, spelled, digit⟩ := Literal.head_of_unsigned? read
    exact ⟨Lexeme.word_of_digits (by simp [spelled]) digits,
      Registry.isCallName_eq_false_of_head spelled (Lexeme.not_isAlpha_of_isDigit digit),
      Literal.value_of_unsigned? read⟩

theorem boolean (b : Bool) : Spells r (spellBool b) (.node (.boolean b)) := by
  have reserved : spellBool b ∈ reservedWords ∧ isName (spellBool b) = true := by
    cases b <;> decide
  exact ⟨Lexeme.word_of_isName reserved.2, Registry.isCallName_eq_false_of_reserved reserved.1,
    by cases b <;> rfl⟩

theorem text {s : String} (quotable : Lexeme.Quotable s.toList) :
    Spells r ("\"" ++ s ++ "\"") (.text s) := by
  have spelled : ("\"" ++ s ++ "\"").toList = '"' :: (s.toList ++ ['"']) := by simp
  have value : Literal.value ("\"" ++ s ++ "\"") = .text s := by
    rw [Literal.value_quoted spelled, String.ofList_toList]
  refine ⟨spelled ▸ .quoted quotable, ?_, value⟩
  exact Registry.isCallName_eq_false_of_head spelled (by decide)

theorem bound {key : String} (some : key ≠ "") (word : key.toList.all Text.isWord = true) :
    Spells r ("\x7b" ++ key ++ "\x7d") (.node (.bound key)) := by
  have spelled : ("\x7b" ++ key ++ "\x7d").toList = '\x7b' :: (key.toList ++ ['\x7d']) := by simp
  have read : Literal.boundKey? ("\x7b" ++ key ++ "\x7d").toList = .some key.toList := by
    rw [spelled]
    simp [Literal.boundKey?, some, word]
  refine ⟨spelled ▸ Lexeme.word_of_key word,
    Registry.isCallName_eq_false_of_head spelled (by decide), ?_⟩
  rw [Literal.value, read]
  simp

end Spells

end Literal

namespace Infix

/-- An expression that a text can show, as an operand or an argument of any other one. -/
structure Shown (r : Registry) (e : Infix) : Prop where
  written : e.written r = true
  single : e.doubles = false
  legible : e.Legible
  close : e.tier ≤ 1

theorem allWritten_of_shown {es : List Infix} (h : ∀ e ∈ es, e.Shown r) :
    allWritten r es = true := by
  induction es with
  | nil => rfl
  | cons e rest ih =>
    simp [allWritten, (h e List.mem_cons_self).written,
      ih fun d member => h d (List.mem_cons_of_mem e member)]

theorem anyDoubles_of_shown {es : List Infix} (h : ∀ e ∈ es, e.Shown r) :
    anyDoubles es = false := by
  induction es with
  | nil => rfl
  | cons e rest ih =>
    simp [anyDoubles, (h e List.mem_cons_self).single,
      ih fun d member => h d (List.mem_cons_of_mem e member)]

theorem allLegible_of_shown {es : List Infix} (h : ∀ e ∈ es, e.Shown r) : AllLegible es := by
  induction es with
  | nil => trivial
  | cons e rest ih =>
    exact ⟨(h e List.mem_cons_self).legible, ih fun d member => h d (List.mem_cons_of_mem e member)⟩

theorem two_le_tierOf (op : BinaryOp) : 2 ≤ tierOf op := by
  rcases op with op | op | op <;> cases op <;> decide

namespace Shown

variable {e : Infix}

theorem parse (h : e.Shown r) (red : Reduction) : Compiler.parse ⟨r, red⟩ e.text =
    (e.evaluate r red).mapError (·.diagnostic.inExpression e.text) := by
  rw [Compiler.parse_of_lexemes (lexemes_text h.legible)]
  exact congrArg _ (run_tokens red h.written h.single)

theorem word {w : String} {v : Value} (h : Literal.Spells r w v) : Shown r (.word w) where
  written := by simp [Infix.written, Token.ofLexeme_of_word h.word, h.free]
  single := rfl
  legible := h.word
  close := Nat.zero_le 1

theorem name {w : String} (word : Lexeme.Word w.toList) : Shown r (.name r w) := by
  cases called : r.isCallName w with
  | true =>
    rw [Infix.name, if_pos called]
    exact ⟨called, rfl, word, Nat.zero_le 1⟩
  | false => simpa [Infix.name, called] using Shown.word (r := r) ⟨word, called, rfl⟩

theorem group (h : Shown r e) : Shown r (.group e) where
  written := h.written
  single := h.single
  legible := h.legible
  close := Nat.zero_le 1

theorem unary (op : Unary) (h : Shown r e) (apart : e.negates = false) : Shown r (.unary op e) where
  written := by simp [Infix.written, h.close, h.written]
  single := by simp [doubles, apart, h.single]
  legible := h.legible
  close := Nat.le_refl 1

theorem binary {left right : Infix} (op : BinaryOp) (low : Shown r left) (high : Shown r right) :
    Shown r (.group (.binary op left right)) where
  written := by
    have := two_le_tierOf op
    have := low.close
    have := high.close
    simp only [Infix.written, low.written, high.written, Bool.and_true, Bool.and_eq_true,
      decide_eq_true_eq]
    omega
  single := by simp [doubles, low.single, high.single]
  legible := ⟨low.legible, high.legible⟩
  close := Nat.zero_le 1

theorem call {a : Atom} {es : List Infix} (member : a ∈ r.atoms) (args : ∀ e ∈ es, e.Shown r) :
    Shown r (.call a.name es) := by
  have registered : r.isCallName a.name = true := by
    rw [r.isCallName_eq, Registry.atomCalled?_eq_some_iff.2 ⟨member, rfl⟩]
    rfl
  exact ⟨by simp [Infix.written, registered, allWritten_of_shown args], anyDoubles_of_shown args,
    ⟨Lexeme.word_of_isName (Registry.of_isCallName registered).1, allLegible_of_shown args⟩,
    Nat.zero_le 1⟩

theorem numeral (x : Float) : Shown r (.numeral r x) := by
  unfold Infix.numeral
  split
  case isTrue undefined =>
    obtain rfl : x = Float.nan := by simpa using undefined
    have spelled : isName (spellNumber Float.nan) = true := by decide
    exact .name (Lexeme.word_of_isName spelled)
  split
  case isTrue unsigned => exact .word (.number unsigned)
  case isFalse notNaN signed =>
    have flipped : Number.isUnsigned (-x) = true := by
      simp [Number.isUnsigned_neg (Bool.eq_false_iff.2 notNaN), signed]
    exact .unary .negate (.word (.number flipped)) rfl

end Shown

end Infix

mutual

theorem Node.shown (quotable : ∀ s, F.text s → Lexeme.Quotable s.toList) (n : Node)
    (has : n.Has r F) : (n.expression r).Shown r := by
  match n with
  | .constant x key =>
    rcases Node.cases_of_has_constant has with ⟨rfl, -⟩ | ⟨bound, -, word⟩
    · exact .numeral x
    · simpa [Node.expression, bound] using Infix.Shown.word (.bound bound word)
  | .boolean b => exact .word (.boolean b)
  | .negate operand => exact .unary .negate (operand.shown quotable has.2).group rfl
  | .not operand => exact .unary .not (operand.shown quotable has.2).group rfl
  | .operation group code left right =>
    obtain ⟨-, known, low, high⟩ := has
    obtain ⟨op, found⟩ := Option.isSome_iff_exists.1 known
    simpa [Node.expression, found] using
      Infix.Shown.binary op (left.shown quotable low) (right.shown quotable high)
  | .call tag fields =>
    obtain ⟨a, member, rfl, found, -, inside⟩ := Node.of_has_call has
    obtain ⟨held, -, -, hold, -⟩ := exists_hold_of_fieldsHave inside
    simpa [Node.expression, found] using
      Infix.Shown.call member (fields_shown quotable held fields hold)

theorem Value.shown (quotable : ∀ s, F.text s → Lexeme.Quotable s.toList) (kind : Kind) (v : Value)
    (has : v.Has r F kind) : (v.expression r).Shown r := by
  match v with
  | .number x => exact .numeral x
  | .bool b => exact .word (.boolean b)
  | .text s => exact .word (.text (quotable s has))
  | .node n => exact n.shown quotable has.1
  | .list items => exact has.elim

theorem items_shown (quotable : ∀ s, F.text s → Lexeme.Quotable s.toList) (kind : Kind)
    (items : List Value) (have' : ItemsHave r F kind items) :
    ∀ e ∈ itemExpressions r items, e.Shown r := by
  match items with
  | [] => simp [itemExpressions]
  | item :: rest =>
    intro e member
    rcases List.mem_cons.1 member with rfl | member
    · exact item.shown quotable kind have'.1
    · exact items_shown quotable kind rest have'.2 e member

theorem fields_shown (quotable : ∀ s, F.text s → Lexeme.Quotable s.toList) (held : List Field)
    (fields : List (String × Value)) (hold : Hold r F held fields) :
    ∀ e ∈ fieldExpressions r fields, e.Shown r := by
  match held, fields, hold with
  | [], [], _ => simp [fieldExpressions]
  | f :: held, (key, v) :: more, .cons ⟨_, kept⟩ later =>
    have others := fields_shown quotable held more later
    rw [fieldExpressions_cons]
    intro e member
    rcases List.mem_append.1 member with member | member
    · rcases kept.cases with ⟨items, rfl, -, -, inside⟩ | ⟨-, inside⟩
      · exact items_shown quotable f.kind items inside e member
      · rw [inside.expressions, List.mem_singleton] at member
        rw [member]
        exact v.shown quotable f.kind inside
    · exact others e member

end

end SkillGraph
