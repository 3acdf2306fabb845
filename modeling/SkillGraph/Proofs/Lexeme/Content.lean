import SkillGraph.Proofs.Except
import SkillGraph.Proofs.Lexeme.Quotes
import SkillGraph.Proofs.Lexeme.Splitting

/-! The lexemes of a text hold all of it but the blanks outside of quoted spans. Written one behind
the other they are the text without those, and each of them stands in the text where the ones in
front of it end. -/
namespace SkillGraph

namespace Lexeme

/-- The text without its blanks outside of quoted spans, where `quoted` says whether it begins
within one. -/
def unspaced (quoted : Bool) : List Char → List Char
  | [] => []
  | c :: rest =>
    if c = '"' then c :: unspaced (!quoted) rest
    else if Text.isBlank c && !quoted then unspaced quoted rest
    else c :: unspaced quoted rest

/-- How a lexeme is written at the front of a text, where `before` is the character in front of it.
Only the two halves of an operator may stand apart, a single operator character makes no pair with
what follows, and a word goes on as far as it can to both sides. -/
inductive Leads (before : Option Char) : List Char → List Char → Prop where
  | pair {c d : Char} {blanks rest : List Char} (pair : [c, d] ∈ pairs)
    (blank : ∀ b ∈ blanks, Text.isBlank b = true) : Leads before [c, d] (c :: (blanks ++ d :: rest))
  | symbol {c : Char} {rest : List Char} (symbol : c ∈ symbols)
    (alone : ∀ d ∈ (rest.dropWhile Text.isBlank).head?, [c, d] ∉ pairs) :
    Leads before [c] (c :: rest)
  | quoted {s rest : List Char} (noQuote : '"' ∉ s) : Leads before (quote s) (quote s ++ rest)
  | word {w rest : List Char} (some : w ≠ []) (plain : ∀ c ∈ w, isPlain c = true)
    (begins : ∀ c ∈ before, isPlain c = false) (ends : Delimited rest) :
    Leads before w (w ++ rest)

/-- The lexeme stands in the text, outside of quoted spans, where the characters `front` end. -/
def Placed (cs front w : List Char) : Prop :=
  ∃ before rest, cs = before ++ rest ∧ Even (before.count '"') ∧ unspaced false before = front ∧
    Leads before.getLast? w rest

variable {cs rest blanks s w front : List Char} {pieces : List (List Char)}

theorem unspaced_blanks (blank : ∀ b ∈ blanks, Text.isBlank b = true) (rest : List Char) :
    unspaced false (blanks ++ rest) = unspaced false rest := by
  induction blanks with
  | nil => rfl
  | cons b blanks ih =>
    obtain ⟨first, others⟩ := List.forall_mem_cons.1 blank
    have noQuote : b ≠ '"' := by
      rintro rfl
      exact absurd first (by decide)
    rw [List.cons_append, unspaced, if_neg noQuote, if_pos (by simp [first]), ih others]

theorem unspaced_inked (inked : ∀ c ∈ w, c ≠ '"' ∧ Text.isBlank c = false) (rest : List Char) :
    unspaced false (w ++ rest) = w ++ unspaced false rest := by
  induction w with
  | nil => rfl
  | cons c w ih =>
    obtain ⟨⟨noQuote, noBlank⟩, others⟩ := List.forall_mem_cons.1 inked
    rw [List.cons_append, unspaced, if_neg noQuote, if_neg (by simp [noBlank]), ih others]
    rfl

theorem unspaced_within (noQuote : '"' ∉ s) (rest : List Char) :
    unspaced true (s ++ '"' :: rest) = s ++ '"' :: unspaced false rest := by
  induction s with
  | nil => simp [unspaced]
  | cons c s ih =>
    obtain ⟨other, noQuote⟩ : c ≠ '"' ∧ '"' ∉ s := by
      simpa [eq_comm] using noQuote
    rw [List.cons_append, unspaced, if_neg other, if_neg (by simp), ih noQuote]
    rfl

theorem unspaced_quote (noQuote : '"' ∉ s) (rest : List Char) :
    unspaced false (quote s ++ rest) = quote s ++ unspaced false rest := by
  rw [quote_append, quote_append, unspaced, if_pos rfl]
  exact congrArg _ (unspaced_within noQuote rest)

inductive Starts (rest : List Char) : List Char → Prop where
  | symbol {c : Char} (symbol : c ∈ symbols) : Starts rest [c]
  | word {w : List Char} (some : w ≠ []) (plain : ∀ c ∈ w, isPlain c = true)
    (ends : Delimited rest) : Starts rest w
  | quoted {s : List Char} (noQuote : '"' ∉ s) : Starts rest (quote s)

theorem Splits.exists_of_cons {p : List Char} (splits : Splits cs (p :: pieces)) :
    ∃ blanks rest, cs = blanks ++ (p ++ rest) ∧ (∀ b ∈ blanks, Text.isBlank b = true) ∧
      Starts rest p ∧ Splits rest pieces := by
  generalize whole : p :: pieces = all at splits
  induction splits with
  | nil => cases whole
  | @blank c rest _ blank _ ih =>
    obtain ⟨blanks, rest, rfl, others, starts, later⟩ := ih whole
    exact ⟨c :: blanks, rest, rfl, List.forall_mem_cons.2 ⟨blank, others⟩, starts, later⟩
  | symbol symbol later _ =>
    cases whole
    exact ⟨[], _, rfl, List.forall_mem_nil _, .symbol symbol, later⟩
  | word some plain delimited later _ =>
    cases whole
    exact ⟨[], _, rfl, List.forall_mem_nil _, .word some plain delimited, later⟩
  | quoted noQuote later _ =>
    cases whole
    exact ⟨[], _, (quote_append _ _).symm, List.forall_mem_nil _, .quoted noQuote, later⟩

namespace Starts

variable {p : List Char}

theorem unspaced_append (starts : Starts rest p) (more : List Char) :
    unspaced false (p ++ more) = p ++ unspaced false more := by
  cases starts with
  | @symbol c symbol =>
    refine unspaced_inked ?_ more
    simpa using of_mem_symbols symbol
  | word some plain ends =>
    refine unspaced_inked (fun c member => ?_) more
    obtain ⟨noQuote, noBlank, -⟩ := isPlain_eq_true_iff.1 (plain c member)
    exact ⟨noQuote, noBlank⟩
  | quoted noQuote => exact unspaced_quote noQuote more

theorem even_count (starts : Starts rest p) : Even (p.count '"') := by
  cases starts with
  | @symbol c symbol => simp [(of_mem_symbols symbol).1]
  | word some plain ends =>
    have none : p.count '"' = 0 := List.count_eq_zero.2 fun member => by
      simpa using (isPlain_eq_true_iff.1 (plain _ member)).1
    simp [none]
  | @quoted s noQuote =>
    have none : s.count '"' = 0 := List.count_eq_zero.2 noQuote
    simp [quote, none]

theorem apart (starts : Starts rest p) :
    (∀ c ∈ p.getLast?, isPlain c = false) ∨ Delimited rest := by
  cases starts with
  | @symbol c symbol => exact .inl (by simp [isPlain, symbol])
  | word some plain ends => exact .inr ends
  | quoted noQuote =>
    left
    rw [quote, ← List.cons_append, List.getLast?_concat]
    rintro c ⟨⟩
    decide

theorem ne_nil (starts : Starts rest p) : p ≠ [] := by
  cases starts with
  | symbol symbol => simp
  | word some plain ends => exact some
  | quoted noQuote => simp [quote]

/-- A piece that makes no pair with what follows is a lexeme. -/
theorem leads {before : Option Char} (starts : Starts rest p)
    (begins : ∀ c ∈ before, isPlain c = false)
    (alone : ∀ d ∈ (rest.dropWhile Text.isBlank).head?, p ++ [d] ∉ pairs) :
    Leads before p (p ++ rest) := by
  cases starts with
  | symbol symbol => exact .symbol symbol alone
  | word some plain ends => exact .word some plain begins ends
  | quoted noQuote => exact .quoted noQuote

end Starts

theorem of_mem_pairs (pair : w ∈ pairs) : ∃ c d, w = [c, d] ∧ c ∈ symbols ∧ d ∈ symbols := by
  have spelled : ∀ p ∈ pairs, p.length = 2 ∧ p ⊆ symbols := by decide
  obtain ⟨two, inside⟩ := spelled w pair
  obtain ⟨c, d, rfl⟩ := List.length_eq_two.1 two
  exact ⟨c, d, rfl, inside (by simp), inside (by simp)⟩

theorem of_append_mem_pairs {a b : List Char} (some : a ≠ []) (some' : b ≠ [])
    (pair : a ++ b ∈ pairs) : ∃ c d, a = [c] ∧ b = [d] := by
  obtain ⟨c, d, same, -⟩ := of_mem_pairs pair
  obtain ⟨e, a, rfl⟩ := List.exists_cons_of_ne_nil some
  rcases List.append_eq_singleton_iff.1 (List.cons.inj same).2 with ⟨rfl, rfl⟩ | ⟨-, rfl⟩
  · exact ⟨e, d, rfl, rfl⟩
  · exact absurd rfl some'

/-- A piece makes a pair with the character behind it only if it joins with the next piece. -/
theorem Splits.append_notMem_pairs {p : List Char} (splits : Splits rest pieces)
    (alone : ∀ b ∈ pieces.head?, p ++ b ∉ pairs) :
    ∀ d ∈ (rest.dropWhile Text.isBlank).head?, p ++ [d] ∉ pairs := by
  intro d head pair
  obtain ⟨c, e, same, -, symbol⟩ := of_mem_pairs pair
  obtain rfl : d = e := by simpa using congrArg List.getLast? same
  obtain ⟨more, starts⟩ := List.head?_eq_some_iff.1 head
  have whole := splits.dropBlanks
  rw [starts] at whole
  obtain ⟨others, rfl, -⟩ := whole.of_symbol symbol
  exact alone [d] rfl pair

theorem count_quote_blanks (blank : ∀ b ∈ blanks, Text.isBlank b = true) :
    blanks.count '"' = 0 :=
  List.count_eq_zero.2 fun member => absurd (blank _ member) (by decide)

/-- A lexeme that is placed behind the first piece of a text is placed in the text. -/
theorem Placed.behind {p : List Char} (placed : Placed rest front w)
    (blank : ∀ b ∈ blanks, Text.isBlank b = true) (starts : Starts rest p) :
    Placed (blanks ++ (p ++ rest)) (p ++ front) w := by
  obtain ⟨before, rest, rfl, even, rfl, leads⟩ := placed
  refine ⟨blanks ++ (p ++ before), rest, by simp, ?_, ?_, ?_⟩
  · rw [List.count_append, List.count_append, count_quote_blanks blank, Nat.zero_add]
    exact starts.even_count.add even
  · rw [unspaced_blanks blank, starts.unspaced_append]
  cases leads with
  | pair pair blank => exact .pair pair blank
  | symbol symbol alone => exact .symbol symbol alone
  | quoted noQuote => exact .quoted noQuote
  | word some plain begins ends =>
    refine .word some plain ?_ ends
    rcases List.eq_nil_or_concat before with rfl | ⟨before, c, rfl⟩
    · rcases starts.apart with apart | delimited
      · obtain ⟨front, c, rfl⟩ := (List.eq_nil_or_concat p).resolve_left starts.ne_nil
        simpa [List.getLast?_append] using apart
      · obtain ⟨c, w, rfl⟩ := List.exists_cons_of_ne_nil some
        have := delimited c rfl
        simp [plain c List.mem_cons_self] at this
    · simpa [List.getLast?_append] using begins

theorem placed_of_starts {p blanks : List Char} (blank : ∀ b ∈ blanks, Text.isBlank b = true)
    (leads : Leads blanks.getLast? p rest) : Placed (blanks ++ rest) [] p := by
  refine ⟨blanks, rest, rfl, by simp [count_quote_blanks blank], ?_, leads⟩
  simpa [unspaced] using unspaced_blanks blank []

/-- Pieces that do not join are lexemes in their places. -/
theorem placed_cons {p : List Char} {words back : List (List Char)} {front : List (List Char)}
    (splits : Splits cs (p :: pieces)) (alone : ∀ b ∈ pieces.head?, p ++ b ∉ pairs)
    (later : ∀ {rest front}, Splits rest pieces → words = front ++ w :: back →
      Placed rest front.flatten w)
    (same : p :: words = front ++ w :: back) : Placed cs front.flatten w := by
  obtain ⟨blanks, rest, rfl, blank, starts, others⟩ := splits.exists_of_cons
  cases front with
  | nil =>
    obtain ⟨rfl, -⟩ := List.cons.inj same
    refine placed_of_starts blank (starts.leads ?_ (others.append_notMem_pairs alone))
    intro c last
    simp [isPlain, blank c (List.mem_of_mem_getLast? last)]
  | cons first front =>
    obtain ⟨rfl, tail⟩ := List.cons.inj same
    exact (later others tail).behind blank starts

/-- Each lexeme is placed where the ones in front of it end. -/
theorem placed_of_join {front back : List (List Char)} (splits : Splits cs pieces)
    (same : join pieces = front ++ w :: back) : Placed cs front.flatten w := by
  fun_induction join pieces generalizing cs front with
  | case1 a b others pair ih =>
    obtain ⟨blanks, rest, rfl, blank, starts, between⟩ := splits.exists_of_cons
    obtain ⟨blanks', rest, rfl, blank', starts', later⟩ := between.exists_of_cons
    obtain ⟨c, d, rfl, rfl⟩ := of_append_mem_pairs starts.ne_nil starts'.ne_nil pair
    cases front with
    | nil =>
      obtain ⟨rfl, -⟩ := List.cons.inj same
      exact placed_of_starts blank (.pair pair blank')
    | cons first front =>
      -- One lexeme, but two pieces with blanks of their own in front of them.
      obtain ⟨rfl, tail⟩ := List.cons.inj same
      exact ((ih later tail).behind blank' starts').behind blank starts
  | case2 a b others apart ih =>
    refine placed_cons splits ?_ ih same
    rintro _ ⟨⟩
    exact apart
  | case3 pieces short =>
    rcases pieces with _ | ⟨p, _ | ⟨b, others⟩⟩
    · simp at same
    · refine placed_cons splits (by simp) ?_ same
      simp
    · exact absurd rfl (short p b others)

theorem flatten_join (pieces : List (List Char)) : (join pieces).flatten = pieces.flatten := by
  fun_induction join pieces with
  | case1 a b others pair ih => simp [ih]
  | case2 a b others apart ih => rw [List.flatten_cons, ih, ← List.flatten_cons]
  | case3 pieces => rfl

/-- Pieces lose blanks alone. -/
theorem Splits.flatten_eq (splits : Splits cs pieces) : pieces.flatten = unspaced false cs := by
  induction splits with
  | nil => rfl
  | @blank c rest pieces blank _ ih =>
    have skipped : unspaced false ([c] ++ rest) = unspaced false rest :=
      unspaced_blanks (by simpa using blank) rest
    rw [ih]
    exact skipped.symm
  | @symbol c rest pieces symbol _ ih =>
    have starts : Starts rest [c] := .symbol symbol
    rw [List.flatten_cons, ih]
    exact (starts.unspaced_append rest).symm
  | @word w rest pieces some plain delimited _ ih =>
    rw [List.flatten_cons, ih, (Starts.word some plain delimited).unspaced_append]
  | @quoted s rest pieces noQuote _ ih =>
    rw [List.flatten_cons, ih, ← quote, ← unspaced_quote noQuote, quote_append]

end Lexeme

/-- Lexemes lose and invent nothing. Written one behind the other they are the text without its
blanks outside of quoted spans, and each one stands in the text where those in front of it end: two
characters of an operator, a single one, a quoted span as it is, or a longest run of characters that
are no blanks, quotes or operator characters. -/
theorem lexemes_placed {text : String} {words : List String} (lexed : lexemes text = .ok words) :
    words.flatMap String.toList = Lexeme.unspaced false text.toList ∧
    ∀ front w back, words = front ++ w :: back →
      Lexeme.Placed text.toList (front.flatMap String.toList) w.toList := by
  obtain ⟨lists, chars, rfl⟩ := map_eq_ok_iff.1 lexed
  obtain ⟨-, -, pieces, found, rfl⟩ := Lexeme.ofChars_eq_ok_iff.1 chars
  have splits := Lexeme.splits_of_split found
  have flat (l : List (List Char)) : (l.map String.ofList).flatMap String.toList = l.flatten := by
    simp [List.flatMap_map]
  constructor
  · rw [flat, Lexeme.flatten_join, splits.flatten_eq]
  · intro front w back same
    obtain ⟨front, behind, same', rfl, spelled⟩ := List.map_eq_append_iff.1 same
    obtain ⟨w, back, rfl, rfl, -⟩ := List.map_eq_cons_iff.1 spelled
    rw [flat, String.toList_ofList]
    exact Lexeme.placed_of_join splits same'

/-- A wide blank, a quoted span right behind a name, and the halves of an operator apart. -/
theorem lexemes_placed_wide :
    lexemes "\u3000Log\"x == y\"& \t&-5" = .ok ["Log", "\"x == y\"", "&&", "-", "5"] ∧
      "Log\"x == y\"&&-5".toList =
        Lexeme.unspaced false "\u3000Log\"x == y\"& \t&-5".toList ∧
      Lexeme.Placed "\u3000Log\"x == y\"& \t&-5".toList "Log\"x == y\"".toList "&&".toList := by
  have lexed : lexemes "\u3000Log\"x == y\"& \t&-5" =
      .ok ["Log", "\"x == y\"", "&&", "-", "5"] := rfl
  obtain ⟨whole, placed⟩ := lexemes_placed lexed
  exact ⟨lexed, whole, placed ["Log", "\"x == y\""] "&&" ["-", "5"] rfl⟩

end SkillGraph
