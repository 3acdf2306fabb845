import SkillGraph.Proofs.Lexeme.Pieces

/-! What a text is split into, read off the text from its front: blanks are skipped, and operator
characters, words and quoted spans are pieces. -/
namespace SkillGraph.Lexeme

variable {cs : List Char} {pieces : List (List Char)}

/-- The text consists of these pieces and of blanks between them. -/
inductive Splits : List Char → List (List Char) → Prop where
  | nil : Splits [] []
  | blank {c : Char} {rest : List Char} {pieces : List (List Char)}
    (blank : Text.isBlank c = true) (later : Splits rest pieces) : Splits (c :: rest) pieces
  | symbol {c : Char} {rest : List Char} {pieces : List (List Char)} (symbol : c ∈ symbols)
    (later : Splits rest pieces) : Splits (c :: rest) ([c] :: pieces)
  | word {w rest : List Char} {pieces : List (List Char)} (some : w ≠ [])
    (plain : ∀ c ∈ w, isPlain c = true) (delimited : Delimited rest)
    (later : Splits rest pieces) : Splits (w ++ rest) (w :: pieces)
  | quoted {s rest : List Char} {pieces : List (List Char)} (noQuote : '"' ∉ s)
    (later : Splits rest pieces) :
    Splits ('"' :: (s ++ '"' :: rest)) (('"' :: (s ++ ['"'])) :: pieces)

theorem split_of_splits (splits : Splits cs pieces) : split [] cs = some pieces := by
  induction splits with
  | nil => rfl
  | @blank c rest pieces blank _ ih =>
    have noQuote : c ≠ '"' := by
      rintro rfl
      exact absurd blank (by decide)
    rw [split, if_neg noQuote, if_pos blank, ih]
    rfl
  | symbol symbol _ ih => rw [split_symbol symbol, ih]; rfl
  | @word w rest pieces some plain delimited _ ih =>
    rw [split_append [] plain, List.append_nil, split_close _ delimited, ih]
    simp [close, some]
  | @quoted s rest pieces noQuote _ ih =>
    rw [split, if_pos rfl, splitQuoted_append _ noQuote, ih]
    rfl

theorem of_splitQuoted {span : List Char} (found : splitQuoted span cs = some pieces) :
    ∃ s rest others, cs = s ++ '"' :: rest ∧ '"' ∉ s ∧ split [] rest = some others ∧
      (span.reverse ++ (s ++ ['"'])) :: others = pieces := by
  induction cs generalizing span with
  | nil => cases found
  | cons c cs ih =>
    rw [splitQuoted] at found
    split at found
    case isTrue quote =>
      subst quote
      obtain ⟨others, later, rfl⟩ := Option.map_eq_some_iff.1 found
      exact ⟨[], cs, others, rfl, List.not_mem_nil, later, by simp⟩
    case isFalse other =>
      obtain ⟨s, rest, others, rfl, noQuote, later, rfl⟩ := ih found
      exact ⟨c :: s, rest, others, rfl, by simp [noQuote, Ne.symm other], later, by simp⟩

theorem exists_word (cs : List Char) : ∃ w rest, cs = w ++ rest ∧
    (∀ c ∈ w, isPlain c = true) ∧ Delimited rest := by
  refine ⟨cs.takeWhile isPlain, cs.dropWhile isPlain, List.takeWhile_append_dropWhile.symm,
    List.all_eq_true.1 List.all_takeWhile, ?_⟩
  intro c head
  have := List.head?_dropWhile_not isPlain cs
  rw [Option.mem_def] at head
  rw [head] at this
  simpa using this

theorem splits_of_split (found : split [] cs = some pieces) : Splits cs pieces := by
  induction n : cs.length using Nat.strongRecOn generalizing cs pieces with
  | ind n ih =>
    subst n
    obtain ⟨w, rest, rfl, plain, delimited⟩ := exists_word cs
    cases w with
    | cons c w =>
      rw [split_append [] plain, List.append_nil, split_close _ delimited] at found
      obtain ⟨others, later, rfl⟩ := Option.map_eq_some_iff.1 found
      have less : rest.length < (c :: w ++ rest).length := by
        rw [List.length_append, List.length_cons]
        omega
      simpa [close] using
        Splits.word (List.cons_ne_nil c w) plain delimited (ih rest.length less later rfl)
    | nil =>
      rw [List.nil_append] at found ⊢
      cases rest with
      | nil =>
        obtain rfl := Option.some.inj found
        exact .nil
      | cons c rest =>
        rw [split] at found
        split at found
        case isTrue quote =>
          subst quote
          obtain ⟨_, inside, rfl⟩ := Option.map_eq_some_iff.1 found
          obtain ⟨s, rest, others, rfl, noQuote, later, rfl⟩ := of_splitQuoted inside
          exact .quoted noQuote (ih rest.length (by simp; omega) later rfl)
        split at found
        case isTrue blank =>
          obtain ⟨others, later, rfl⟩ := Option.map_eq_some_iff.1 found
          exact .blank blank (ih rest.length (by simp) later rfl)
        split at found
        case isTrue symbol =>
          obtain ⟨others, later, rfl⟩ := Option.map_eq_some_iff.1 found
          exact .symbol symbol (ih rest.length (by simp) later rfl)
        case isFalse noQuote noBlank noSymbol =>
          have plain : isPlain c = true :=
            isPlain_eq_true_iff.2 ⟨noQuote, by simpa using noBlank, noSymbol⟩
          exact absurd plain (Bool.eq_false_iff.1 (delimited c rfl))

namespace Splits

theorem of_symbol {c : Char} {rest : List Char} (symbol : c ∈ symbols)
    (splits : Splits (c :: rest) pieces) :
    ∃ others, pieces = [c] :: others ∧ Splits rest others := by
  have found := split_of_splits splits
  rw [split_symbol symbol] at found
  obtain ⟨others, later, rfl⟩ := Option.map_eq_some_iff.1 found
  exact ⟨others, rfl, splits_of_split later⟩

theorem dropBlanks (splits : Splits cs pieces) : Splits (cs.dropWhile Text.isBlank) pieces := by
  induction splits with
  | nil => exact .nil
  | blank blank _ ih => rwa [List.dropWhile_cons_of_pos blank]
  | symbol symbol later _ =>
    rw [List.dropWhile_cons_of_neg (by simp [of_mem_symbols symbol])]
    exact .symbol symbol later
  | @word w rest pieces some plain delimited later _ =>
    obtain ⟨c, w, rfl⟩ := List.exists_cons_of_ne_nil some
    have blank := (isPlain_eq_true_iff.1 (plain c List.mem_cons_self)).2.1
    rw [List.cons_append, List.dropWhile_cons_of_neg (by simp [blank])]
    exact .word some plain delimited later
  | quoted noQuote later _ =>
    rw [List.dropWhile_cons_of_neg (by decide)]
    exact .quoted noQuote later

end Splits

end SkillGraph.Lexeme
