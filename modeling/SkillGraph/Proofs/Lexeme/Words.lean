import SkillGraph.Proofs.Except
import SkillGraph.Proofs.Lexeme.Names
import SkillGraph.Proofs.Lexeme.Splitting

/-! The words of a text that lexes. Every piece is a word or an operator character, and every
quoted span could be quoted again. -/
namespace SkillGraph

namespace Lexeme

/-- Behind any character but an equals sign no sign is bare. This also holds of the end of such a
text, wherever it begins. -/
def Settled (cs : List Char) : Prop :=
  ∀ front c rest, cs = front ++ c :: rest → c ≠ '=' → bareEquals (some c) rest = false

theorem settled_of_bareEquals {before : Option Char} {cs : List Char}
    (paired : bareEquals before cs = false) : Settled cs := by
  rintro front c rest rfl apart
  rw [bareEquals_append_cons _ _ apart, Bool.or_eq_false_iff] at paired
  exact paired.2

theorem Settled.of_append (front : List Char) {cs : List Char} (settled : Settled (front ++ cs)) :
    Settled cs :=
  fun between c rest same => settled (front ++ between) c rest (by rw [same, List.append_assoc])

def Piece (p : List Char) : Prop := Word p ∨ ∃ c ∈ symbols, p = [c]

/-- The pieces of a text without forbidden characters and bare equals signs. -/
theorem piece_of_splits {cs : List Char} {pieces : List (List Char)} (splits : Splits cs pieces)
    (clean : ∀ c ∈ cs, c ∉ forbidden) (settled : Settled cs) : ∀ p ∈ pieces, Piece p := by
  induction splits with
  | nil => exact List.forall_mem_nil _
  | @blank c rest pieces _ _ ih =>
    exact ih (List.forall_mem_cons.1 clean).2 (settled.of_append [c])
  | @symbol c rest pieces symbol _ ih =>
    have later := ih (List.forall_mem_cons.1 clean).2 (settled.of_append [c])
    exact List.forall_mem_cons.2 ⟨.inr ⟨c, symbol, rfl⟩, later⟩
  | @word w rest pieces some plain _ _ ih =>
    obtain ⟨clean, clean'⟩ := List.forall_mem_append.1 clean
    exact List.forall_mem_cons.2 ⟨.inl (.plain some plain clean), ih clean' (settled.of_append w)⟩
  | @quoted s rest pieces noQuote _ ih =>
    obtain ⟨clean, clean'⟩ := List.forall_mem_append.1 (List.forall_mem_cons.1 clean).2
    have paired : bareEquals (some '"') (s ++ '"' :: rest) = false :=
      settled [] '"' _ rfl (by decide)
    rw [bareEquals_append_cons _ _ (by decide), Bool.or_eq_false_iff] at paired
    have quotable : Quotable s := ⟨noQuote, clean,
      (compares_quote_iff s).1 ((bareEquals_eq_false_iff _ s).1 paired.1)⟩
    have later := ih (List.forall_mem_cons.1 clean').2 (settled_of_bareEquals paired.2)
    exact List.forall_mem_cons.2 ⟨.inl (.quoted quotable), later⟩

theorem mem_join {pieces : List (List Char)} {w : List Char} (member : w ∈ join pieces) :
    w ∈ pieces ∨ w ∈ pairs := by
  fun_induction join pieces with
  | case1 a b rest pair ih =>
    rcases List.mem_cons.1 member with rfl | member
    · exact .inr pair
    · exact (ih member).imp (fun h => by simp [h]) id
  | case2 a b rest apart ih =>
    rcases List.mem_cons.1 member with rfl | member
    · exact .inl List.mem_cons_self
    · exact (ih member).imp (List.mem_cons_of_mem a) id
  | case3 pieces => exact .inl member

/-- A lexeme is a word, an operator character or a pair of them. -/
theorem piece_of_ofChars {cs w : List Char} {words : List (List Char)}
    (lexed : ofChars cs = .ok words) (member : w ∈ words) : Piece w ∨ w ∈ pairs := by
  obtain ⟨none, paired, pieces, splits, rfl⟩ := ofChars_eq_ok_iff.1 lexed
  have fine := piece_of_splits (splits_of_split splits) (forbiddenIn_eq_nil_iff.1 none)
    (settled_of_bareEquals paired)
  exact (mem_join member).imp_left (fine w)

/-- A lexeme without a part of its own is a word or a lone half of an operator. -/
theorem word_of_lexemes {text w : String} {words : List String}
    (lexed : SkillGraph.lexemes text = .ok words) (member : w ∈ words)
    (plain : Token.ofLexeme w = .word w) : Word w.toList ∨ w ∈ ["=", "&", "|"] := by
  obtain ⟨pieces, chars, rfl⟩ := map_eq_ok_iff.1 lexed
  obtain ⟨p, inside, rfl⟩ := List.mem_map.1 member
  have lone : ∀ q ∈ symbols.map ([·]) ++ pairs,
      Token.ofLexeme (String.ofList q) = .word (String.ofList q) →
        String.ofList q ∈ ["=", "&", "|"] := by decide
  rcases piece_of_ofChars chars inside with (word | ⟨c, symbol, rfl⟩) | pair
  · exact .inl (by simpa using word)
  · exact .inr (lone [c] (List.mem_append_left _ (List.mem_map_of_mem symbol)) plain)
  · exact .inr (lone p (List.mem_append_right _ pair) plain)

end Lexeme

end SkillGraph
