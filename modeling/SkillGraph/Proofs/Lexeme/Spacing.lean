import SkillGraph.Proofs.Lexeme.Comparisons
import SkillGraph.Proofs.Lexeme.Content

/-! Lexemes written apart. Joining looks through blanks, so that a text with its lexemes spaced out
splits into the same pieces, which join as before. The check of equals signs does not, and a lone
one fails it once blanks stand around it. -/
namespace SkillGraph

namespace Lexeme

def spaced (words : List (List Char)) : List Char := [' '].intercalate words

def parts (w : List Char) : List (List Char) := if pairs.contains w then w.map ([·]) else [w]

variable {cs w : List Char} {words pieces : List (List Char)} {before : Option Char}

theorem parts_of_mem (pair : w ∈ pairs) : parts w = w.map ([·]) :=
  if_pos (List.contains_iff_mem.2 pair)

theorem parts_of_notMem (alone : w ∉ pairs) : parts w = [w] :=
  if_neg fun pair => alone (List.contains_iff_mem.1 pair)

@[simp] theorem spaced_singleton (w : List Char) : spaced [w] = w := by
  simp [spaced]

theorem spaced_cons_cons (w v : List Char) (words : List (List Char)) :
    spaced (w :: v :: words) = w ++ ' ' :: spaced (v :: words) := by
  simp [spaced, List.intercalate_cons_cons]

theorem mem_spaced {c : Char} (member : c ∈ spaced words) : c = ' ' ∨ ∃ w ∈ words, c ∈ w := by
  induction words with
  | nil => cases member
  | cons w words ih =>
    cases words with
    | nil => exact .inr ⟨w, List.mem_cons_self, by simpa using member⟩
    | cons v words =>
      rw [spaced_cons_cons, List.mem_append, List.mem_cons] at member
      rcases member with here | blank | later
      · exact .inr ⟨w, List.mem_cons_self, here⟩
      · exact .inl blank
      · exact (ih later).imp_right fun ⟨u, among, inside⟩ =>
          ⟨u, List.mem_cons_of_mem w among, inside⟩

theorem Piece.ne_nil (piece : Piece w) : w ≠ [] := by
  rcases piece with word | ⟨c, -, rfl⟩
  · obtain ⟨c, rest, rfl, -⟩ := word.exists_head
    exact List.cons_ne_nil c rest
  · exact List.cons_ne_nil c []

theorem Piece.notMem_pairs (piece : Piece w) : w ∉ pairs := by
  rcases piece with word | ⟨c, -, rfl⟩
  · simpa using word.alone []
  · simp [pairs]

theorem flatMap_parts_join (single : ∀ p ∈ pieces, Piece p) :
    (join pieces).flatMap parts = pieces := by
  fun_induction join pieces with
  | case1 a b rest pair ih =>
    obtain ⟨first, second, others⟩ : Piece a ∧ Piece b ∧ ∀ p ∈ rest, Piece p := by
      simpa using single
    have two : parts (a ++ b) = [a, b] := by
      obtain ⟨c, d, rfl, rfl⟩ := of_append_mem_pairs first.ne_nil second.ne_nil pair
      exact parts_of_mem pair
    rw [List.flatMap_cons, two, ih others]
    rfl
  | case2 a b rest apart ih =>
    obtain ⟨first, others⟩ := List.forall_mem_cons.1 single
    rw [List.flatMap_cons, ih others, parts_of_notMem first.notMem_pairs]
    rfl
  | case3 pieces short =>
    rcases pieces with _ | ⟨a, _ | ⟨b, rest⟩⟩
    · rfl
    · obtain ⟨first, -⟩ := List.forall_mem_cons.1 single
      simp [parts_of_notMem first.notMem_pairs]
    · exact absurd rfl (short a b rest)

theorem split_parts (lexeme : Piece w ∨ w ∈ pairs) {rest : List Char} (delimited : Delimited rest) :
    split [] (w ++ rest) = (split [] rest).map (parts w ++ ·) := by
  rcases lexeme with piece | pair
  · rw [parts_of_notMem piece.notMem_pairs]
    rcases piece with word | ⟨c, symbol, rfl⟩
    · exact split_word word delimited
    · exact split_symbol symbol rest
  · obtain ⟨c, d, rfl, first, second⟩ := of_mem_pairs pair
    rw [parts_of_mem pair, List.cons_append, List.singleton_append, split_symbol first,
      split_symbol second, Option.map_map]
    rfl

theorem split_spaced (lexeme : ∀ w ∈ words, Piece w ∨ w ∈ pairs) :
    split [] (spaced words) = some (words.flatMap parts) := by
  induction words with
  | nil => rfl
  | cons w words ih =>
    obtain ⟨first, others⟩ := List.forall_mem_cons.1 lexeme
    cases words with
    | nil =>
      have ends : Delimited [] := by simp [Delimited]
      simpa [split] using split_parts first ends
    | cons v words =>
      have blank : Delimited (' ' :: spaced (v :: words)) := by
        rintro c ⟨⟩
        decide
      rw [spaced_cons_cons, split_parts first blank, split_blank, ih others]
      rfl

/-- What stands in front of a text matters for its equals signs only if it makes a comparison. -/
theorem bareEquals_of_fresh (fresh : ∀ c ∈ before, c ∉ signs) (cs : List Char) :
    bareEquals before cs = bareEquals none cs := by
  cases cs with
  | nil => rfl
  | cons c rest =>
    by_cases equals : c = '='
    · subst equals
      by_cases double : ∃ back, rest = '=' :: back
      · obtain ⟨back, rfl⟩ := double
        rw [bareEquals, bareEquals]
      · have bare {before : Option Char} (fresh : ∀ c ∈ before, c ∉ signs) :
            bareEquals before ('=' :: rest) = true := by
          refine Bool.eq_true_of_not_eq_false fun paired => ?_
          obtain ⟨back, same, -⟩ := exists_pair fresh paired
          exact double ⟨back, same⟩
        rw [bare fresh, bare (by simp)]
    · rw [bareEquals_cons _ equals, bareEquals_cons _ equals]

/-- Each lexeme is checked on its own. -/
theorem bareEquals_spaced (words : List (List Char)) :
    bareEquals none (spaced words) = words.any (bareEquals none) := by
  induction words with
  | nil => rfl
  | cons w words ih =>
    cases words with
    | nil => simp
    | cons v words =>
      have fresh : ∀ c ∈ some ' ', c ∉ signs := by
        rintro c ⟨⟩
        decide
      rw [spaced_cons_cons, bareEquals_append_cons _ _ (by decide), bareEquals_of_fresh fresh, ih,
        ← List.any_cons]

/-- The only lexeme that is refused on its own is a lone equals sign. -/
theorem bareEquals_iff_of_lexeme (lexeme : Piece w ∨ w ∈ pairs) :
    bareEquals none w = true ↔ w = ['='] := by
  rcases lexeme with (word | ⟨c, -, rfl⟩) | pair
  · rw [word.bareEquals]
    refine iff_of_false Bool.false_ne_true ?_
    rintro rfl
    exact word.head rfl
  · by_cases equals : c = '='
    · simp [equals, bareEquals]
    · simp [bareEquals_cons _ equals, bareEquals, equals]
  · have paired : ∀ p ∈ pairs, bareEquals none p = false ∧ p ≠ ['='] := by decide
    simp [paired w pair]

theorem clean_of_lexeme (lexeme : Piece w ∨ w ∈ pairs) : ∀ c ∈ w, c ∉ forbidden := by
  have apart : ∀ c ∈ symbols, c ∉ forbidden := forall_mem_of_all (by decide)
  rcases lexeme with (word | ⟨c, symbol, rfl⟩) | pair
  · exact word.clean
  · simpa using apart c symbol
  · obtain ⟨c, d, rfl, first, second⟩ := of_mem_pairs pair
    simp [apart c first, apart d second]

/-- Spaced out, the lexemes of a text are read again unless one of them is a lone equals sign. -/
theorem ofChars_spaced_iff (lexed : ofChars cs = .ok words) :
    ofChars (spaced words) = .ok words ↔ ['='] ∉ words := by
  have lexeme : ∀ w ∈ words, Piece w ∨ w ∈ pairs := fun w => piece_of_ofChars lexed
  have bare : bareEquals none (spaced words) = true ↔ ['='] ∈ words := by
    rw [bareEquals_spaced, List.any_eq_true]
    constructor
    · rintro ⟨w, member, refused⟩
      rwa [← (bareEquals_iff_of_lexeme (lexeme w member)).1 refused]
    · intro member
      exact ⟨_, member, rfl⟩
  constructor
  · intro again lone
    rw [(ofChars_eq_ok_iff.1 again).2.1] at bare
    exact Bool.false_ne_true (bare.2 lone)
  · intro paired
    obtain ⟨none, settled, pieces, splits, rfl⟩ := ofChars_eq_ok_iff.1 lexed
    have single := piece_of_splits (splits_of_split splits) (forbiddenIn_eq_nil_iff.1 none)
      (settled_of_bareEquals settled)
    refine ofChars_eq_ok_iff.2 ⟨forbiddenIn_eq_nil_iff.2 ?_, ?_, pieces, ?_, rfl⟩
    · intro c member
      rcases mem_spaced member with rfl | ⟨w, among, inside⟩
      · decide
      · exact clean_of_lexeme (lexeme w among) c inside
    · simpa [paired] using bare
    · rw [split_spaced lexeme, flatMap_parts_join single]

end Lexeme

/-- Blanks between lexemes do not matter. With single blanks between them, the lexemes of a text are
read again, and only a lone equals sign among them is then refused. -/
theorem lexemes_spaced_iff {text : String} {words : List String}
    (lexed : lexemes text = .ok words) :
    lexemes (" ".intercalate words) = .ok words ↔ "=" ∉ words := by
  obtain ⟨lists, chars, rfl⟩ := map_eq_ok_iff.1 lexed
  have spelled : (" ".intercalate (lists.map String.ofList)).toList = Lexeme.spaced lists := by
    simp [String.toList_intercalate, Lexeme.spaced, Function.comp_def]
  have lone : "=" ∈ lists.map String.ofList ↔ ['='] ∈ lists :=
    List.mem_map_of_injective (fun _ _ => String.ofList_injective)
  rw [lone, ← Lexeme.ofChars_spaced_iff chars, lexemes, spelled, map_eq_ok_iff]
  constructor
  · rintro ⟨again, read, same⟩
    have ends := (List.map_injective_iff.2 fun _ _ => String.ofList_injective) same
    rwa [ends] at read
  · intro read
    exact ⟨lists, read, rfl⟩

/-- Operators that were written apart or without blanks. -/
theorem lexemes_spaced_iff_merged :
    lexemes "-1<=x & &\"a  b\"!=!y" = .ok ["-", "1", "<=", "x", "&&", "\"a  b\"", "!=", "!", "y"] ∧
      lexemes "- 1 <= x && \"a  b\" != ! y" =
        .ok ["-", "1", "<=", "x", "&&", "\"a  b\"", "!=", "!", "y"] := by
  have lexed : lexemes "-1<=x & &\"a  b\"!=!y" =
    .ok ["-", "1", "<=", "x", "&&", "\"a  b\"", "!=", "!", "y"] := rfl
  exact ⟨lexed, (lexemes_spaced_iff lexed).2 (by decide)⟩

end SkillGraph
