import SkillGraph.Proofs.Infix.Basic
import SkillGraph.Proofs.Lexeme.Pieces

/-! The text of an expression: blanks around binary operators and behind commas, and nowhere else.
It lexes to the lexemes of the expression, so that no two operators run together. -/
namespace SkillGraph

namespace Lexeme

/-- A text that reads as these lexemes wherever no word runs on behind it. Its last piece joins
with nothing that follows, its first one with nothing before it. -/
structure Reads (text : List Char) (words : List (List Char)) : Prop where
  clean : ∀ c ∈ text, c ∉ forbidden
  head : text.head? ≠ some '='
  compares : ∀ before, bareEquals before text = false
  pieces : ∃ first more, first ∉ [['&'], ['|'], ['=']] ∧
    (∀ rest, Delimited rest →
      split [] (text ++ rest) = (split [] rest).map (first :: more ++ ·)) ∧
    (∀ next, join (first :: more ++ next) = words ++ join next)

theorem Delimited.of_symbol {c : Char} (symbol : c ∈ symbols) (rest : List Char) :
    Delimited (c :: rest) := by
  rintro d ⟨⟩
  simp [isPlain, symbol]

theorem Delimited.of_blank (rest : List Char) : Delimited (' ' :: rest) := by
  rintro d ⟨⟩
  decide

theorem symbol_alone {c : Char} (inert : c ∈ ['(', ')', ',']) (b : List Char) :
    [c] ++ b ∉ pairs := by
  have heads : ∀ d ∈ pairs.filterMap List.head?, d ∉ ['(', ')', ','] :=
    forall_mem_of_all (by decide)
  exact fun pair => heads c (List.mem_filterMap.2 ⟨_, pair, rfl⟩) inert

/-- Only a second half of a pair joins with an operator character before it. -/
theorem join_symbol {first : List Char} (c : Char) (apart : first ∉ [['&'], ['|'], ['=']])
    (rest : List (List Char)) : join ([c] :: first :: rest) = [c] :: join (first :: rest) := by
  have halves : ∀ p ∈ pairs, p.tail ∈ [['&'], ['|'], ['=']] := by decide
  rw [join, if_neg fun pair => apart (by simpa using halves ([c] ++ first) pair)]

theorem inert_apart {c : Char} (inert : c ∈ ['(', ')', ',', '-', '!']) :
    [c] ∉ [['&'], ['|'], ['=']] := by
  have all : ∀ c ∈ ['(', ')', ',', '-', '!'], [c] ∉ [['&'], ['|'], ['=']] :=
    forall_mem_of_all (by decide)
  exact all c inert

theorem symbol_of_sign {c : Char} (sign : c ∈ ['-', '!']) :
    c ∈ symbols ∧ c ∉ forbidden ∧ c ≠ '=' := by
  have all : ∀ c ∈ ['-', '!'], c ∈ symbols ∧ c ∉ forbidden ∧ c ≠ '=' :=
    forall_mem_of_all (by decide)
  exact all c sign

theorem Word.apart {w : List Char} (word : Word w) : w ∉ [['&'], ['|'], ['=']] := by
  have alone := word.append_notMem [] (l := [['&'], ['|'], ['=']]) (forall_mem_of_all (by decide))
  rwa [List.append_nil] at alone

/-- A text between two others that reads as one lexeme. It delimits the first one, and what starts
the second one does not join with it. -/
structure Joint (text word : List Char) : Prop where
  clean : ∀ c ∈ text, c ∉ forbidden
  delimits : ∀ rest, Delimited (text ++ rest) ∧ (text ++ rest).head? ≠ some '='
  compares : bareEquals none text = false
  pieces : ∃ pieces, (∀ rest, split [] (text ++ rest) = (split [] rest).map (pieces ++ ·)) ∧
    ∀ first, first ∉ [['&'], ['|'], ['=']] → ∀ rest,
      join (pieces ++ first :: rest) = word :: join (first :: rest)

theorem Joint.comma : Joint [',', ' '] [','] where
  clean := forall_mem_of_all (by decide)
  delimits rest := ⟨.of_symbol (by decide) _, by simp⟩
  compares := rfl
  pieces := by
    refine ⟨[[',']], ?_, fun first _ rest => join_cons (symbol_alone (by decide)) _⟩
    intro rest
    change split [] (',' :: ' ' :: rest) = _
    rw [split_symbol (by decide), split_blank]
    rfl

theorem Joint.operator (op : BinaryOp) :
    Joint (' ' :: (op.symbol.toList ++ [' '])) op.symbol.toList where
  clean := forall_mem_of_all (by rcases op with op | op | op <;> cases op <;> decide)
  delimits rest := ⟨.of_blank _, by simp⟩
  compares := by rcases op with op | op | op <;> cases op <;> rfl
  pieces := by
    have one (c : Char) (symbol : c ∈ symbols) (rest : List Char) :
        split [] (' ' :: c :: ' ' :: rest) = (split [] rest).map ([[c]] ++ ·) := by
      rw [split_blank, split_symbol symbol, split_blank]
      rfl
    have two (c d : Char) (symbol : c ∈ symbols) (symbol' : d ∈ symbols) (rest : List Char) :
        split [] (' ' :: c :: d :: ' ' :: rest) = (split [] rest).map ([[c], [d]] ++ ·) := by
      rw [split_blank, split_symbol symbol, split_symbol symbol', split_blank]
      simp [Function.comp_def]
    rcases op with op | op | op <;> cases op
    all_goals first
      | exact ⟨[_], one _ (by decide), fun first apart rest => join_symbol _ apart rest⟩
      | exact ⟨[_, _], two _ _ (by decide) (by decide), fun first apart rest => rfl⟩

namespace Reads

variable {a b : List Char} {as bs : List (List Char)}

theorem word (h : Word a) : Reads a [a] where
  clean := h.clean
  head := h.head
  compares := h.bareEquals
  pieces := ⟨a, [], h.apart, fun _ delimited => split_word h delimited,
    fun next => join_cons h.alone next⟩

theorem group (h : Reads a as) : Reads ('(' :: (a ++ [')'])) (['('] :: (as ++ [[')']])) where
  clean := by
    intro c member
    simp only [List.mem_cons, List.mem_append, List.not_mem_nil, or_false] at member
    rcases member with rfl | member | rfl
    · decide
    · exact h.clean c member
    · decide
  head := by simp
  compares before := by
    rw [bareEquals_cons _ (by decide), bareEquals_append _ _ (by decide), h.compares]
    rfl
  pieces := by
    obtain ⟨first, more, -, splits, joins⟩ := h.pieces
    refine ⟨['('], first :: more ++ [[')']], inert_apart (by decide), ?_, ?_⟩
    · intro rest _
      rw [List.cons_append, split_symbol (by decide), List.append_assoc, List.singleton_append,
        splits _ (.of_symbol (by decide) _), split_symbol (by decide)]
      simp [Function.comp_def]
    · intro next
      rw [List.cons_append, join_cons (symbol_alone (by decide)), List.append_assoc, joins,
        List.singleton_append, join_cons (symbol_alone (by decide))]
      simp

theorem parentheses : Reads ['(', ')'] [['('], [')']] where
  clean := forall_mem_of_all (by decide)
  head := by decide
  compares _ := rfl
  pieces := by
    refine ⟨['('], [[')']], inert_apart (by decide), ?_, ?_⟩
    · intro rest _
      rw [List.cons_append, split_symbol (by decide), List.singleton_append,
        split_symbol (by decide)]
      simp [Function.comp_def]
    · intro next
      rw [List.cons_append, join_cons (symbol_alone (by decide)), List.singleton_append,
        join_cons (symbol_alone (by decide))]
      rfl

/-- A text behind another one that it delimits. -/
theorem append (first : Reads a as) (second : Reads b bs) (some : b ≠ [])
    (delimited : Delimited b) :
    Reads (a ++ b) (as ++ bs) where
  clean c member := (List.mem_append.1 member).elim (first.clean c) (second.clean c)
  head := by
    cases a with
    | nil => exact second.head
    | cons c rest => simpa using first.head
  compares before := by
    rw [bareEquals_append _ _ second.head, first.compares, second.compares]
    rfl
  pieces := by
    obtain ⟨p, ps, apart, splits, joins⟩ := first.pieces
    obtain ⟨q, qs, -, splits', joins'⟩ := second.pieces
    refine ⟨p, ps ++ q :: qs, apart, ?_, ?_⟩
    · intro rest free
      have between : Delimited (b ++ rest) := by
        cases b with
        | nil => exact absurd rfl some
        | cons c b => exact delimited
      rw [List.append_assoc, splits _ between, splits' _ free]
      simp [Function.comp_def]
    · intro next
      rw [List.cons_append, List.append_assoc, ← List.cons_append, joins, joins', List.append_assoc]

theorem call (name : Word a) (inner : Reads ('(' :: b) bs) : Reads (a ++ '(' :: b) (a :: bs) :=
  append (word name) inner (by simp) (.of_symbol (by decide) b)

/-- Two texts with an operator or a comma between them. -/
theorem joint {m : List Char} {w : List Char} (h : Joint m w) (first : Reads a as)
    (second : Reads b bs) : Reads (a ++ (m ++ b)) (as ++ w :: bs) where
  clean := by
    intro c member
    rcases List.mem_append.1 member with member | member
    · exact first.clean c member
    · exact (List.mem_append.1 member).elim (h.clean c) (second.clean c)
  head := by
    cases a with
    | nil => exact (h.delimits b).2
    | cons c rest => simpa using first.head
  compares before := by
    rw [bareEquals_append _ _ (h.delimits b).2, first.compares, bareEquals_append _ _ second.head,
      h.compares, second.compares]
    rfl
  pieces := by
    obtain ⟨p, ps, apart, splits, joins⟩ := first.pieces
    obtain ⟨q, qs, apart', splits', joins'⟩ := second.pieces
    obtain ⟨ms, splitsHere, joinsHere⟩ := h.pieces
    refine ⟨p, ps ++ (ms ++ q :: qs), apart, ?_, ?_⟩
    · intro rest free
      rw [List.append_assoc, List.append_assoc, splits _ (h.delimits _).1, splitsHere,
        splits' _ free]
      simp [Function.comp_def]
    · intro next
      rw [List.cons_append, List.append_assoc, ← List.cons_append, joins, List.append_assoc,
        List.cons_append, joinsHere q apart', ← List.cons_append, joins']
      simp

theorem unary {c : Char} (sign : c ∈ ['-', '!']) (h : Reads a as) : Reads (c :: a) ([c] :: as) := by
  obtain ⟨symbol, clean, other⟩ := symbol_of_sign sign
  refine ⟨?_, by simpa using other, ?_, ?_⟩
  · intro d member
    rcases List.mem_cons.1 member with rfl | member
    · exact clean
    · exact h.clean d member
  · intro before
    rw [bareEquals_cons _ other, h.compares]
  · obtain ⟨p, ps, apart, splits, joins⟩ := h.pieces
    refine ⟨[c], p :: ps, inert_apart (List.mem_append_right ['(', ')', ','] sign), ?_, ?_⟩
    · intro rest free
      rw [List.cons_append, split_symbol symbol, splits _ free]
      simp [Function.comp_def]
    · intro next
      rw [List.cons_append, List.cons_append, join_symbol c apart, ← List.cons_append, joins]
      rfl

end Reads

theorem ofChars_of_reads {text : List Char} {words : List (List Char)} (h : Reads text words) :
    ofChars text = .ok words := by
  obtain ⟨first, more, -, splits, joins⟩ := h.pieces
  have pieces : split [] text = some (first :: more) := by
    have := splits [] (by simp [Delimited])
    rw [List.append_nil] at this
    rw [this]
    simp [split]
  have joined : join (first :: more) = words := by
    have := joins []
    rwa [List.append_nil, show join [] = [] from rfl, List.append_nil] at this
  exact ofChars_eq_ok_iff.2
    ⟨forbiddenIn_eq_nil_iff.2 h.clean, h.compares none, first :: more, pieces, joined⟩

end Lexeme

namespace Infix

mutual

def text : Infix → String
  | .word w => w
  | .bare name => name
  | .call name args => name ++ "(" ++ ", ".intercalate (allTexts args) ++ ")"
  | .group inner => "(" ++ inner.text ++ ")"
  | .unary op operand => op.operator.symbol ++ operand.text
  | .binary op left right => left.text ++ " " ++ op.symbol ++ " " ++ right.text

def allTexts : List Infix → List String
  | [] => []
  | e :: rest => e.text :: allTexts rest

end

mutual

def Legible : Infix → Prop
  | .word w => Lexeme.Word w.toList
  | .bare name => Lexeme.Word name.toList
  | .call name args => Lexeme.Word name.toList ∧ AllLegible args
  | .group inner => inner.Legible
  | .unary _ operand => operand.Legible
  | .binary _ left right => left.Legible ∧ right.Legible

def AllLegible : List Infix → Prop
  | [] => True
  | e :: rest => e.Legible ∧ AllLegible rest

end

mutual

theorem reads_text (e : Infix) (legible : e.Legible) :
    Lexeme.Reads e.text.toList (e.lexemes.map String.toList) := by
  match e with
  | .word w => exact .word legible
  | .bare name => exact .word legible
  | .call name [] =>
    obtain ⟨named, -⟩ := legible
    simpa [text, allTexts, lexemes, allLexemes] using Lexeme.Reads.call named .parentheses
  | .call name (e :: rest) =>
    obtain ⟨named, inside⟩ := legible
    have args := reads_texts (e :: rest) inside (by simp)
    simpa [text, lexemes] using Lexeme.Reads.call named args.group
  | .group inner =>
    simpa [text, lexemes] using (reads_text inner legible).group
  | .unary op operand =>
    have inside := reads_text operand legible
    cases op with
    | negate =>
      simpa [text, lexemes, Unary.operator, Operator.symbol] using
        inside.unary (c := '-') (by decide)
    | not =>
      simpa [text, lexemes, Unary.operator, Operator.symbol] using
        inside.unary (c := '!') (by decide)
  | .binary op left right =>
    obtain ⟨low, high⟩ := legible
    simpa [text, lexemes] using
      (reads_text left low).joint (.operator op) (reads_text right high)

theorem reads_texts (args : List Infix) (legible : AllLegible args) (some : args ≠ []) :
    Lexeme.Reads (", ".intercalate (allTexts args)).toList
      (([","].intercalate (allLexemes args)).map String.toList) := by
  match args with
  | [] => exact absurd rfl some
  | [e] => simpa [allTexts, allLexemes] using reads_text e legible.1
  | e :: next :: rest =>
    have first := reads_text e legible.1
    have others := reads_texts (next :: rest) legible.2 (by simp)
    have both := Lexeme.Reads.joint .comma first others
    simpa [allTexts, allLexemes, String.intercalate_cons_cons, List.intercalate_cons_cons]
      using both

end

theorem lexemes_text {e : Infix} (legible : e.Legible) :
    SkillGraph.lexemes e.text = .ok e.lexemes := by
  rw [SkillGraph.lexemes, Lexeme.ofChars_of_reads (reads_text e legible)]
  simp [Except.map, Function.comp_def]

end Infix

end SkillGraph
