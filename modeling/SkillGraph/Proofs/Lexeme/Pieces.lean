import SkillGraph.Proofs.Lexeme.Equals

/-! How a text that is put together from words, quoted spans and operator characters splits into
pieces again, and which pieces join. -/
namespace SkillGraph.Lexeme

theorem forall_mem_of_all {l : List Char} {p : Char → Prop} [DecidablePred p]
    (all : l.all (p ·) = true) : ∀ c ∈ l, p c := by
  simpa using all

def isPlain (c : Char) : Bool := c ≠ '"' && !Text.isBlank c && c ∉ symbols

theorem isPlain_eq_true_iff {c : Char} :
    isPlain c = true ↔ c ≠ '"' ∧ Text.isBlank c = false ∧ c ∉ symbols := by
  simp [isPlain, and_assoc]

theorem ne_equals_of_isPlain {c : Char} (plain : isPlain c = true) : c ≠ '=' := by
  rintro rfl
  exact absurd plain (by decide)

structure Quotable (s : List Char) : Prop where
  noQuote : '"' ∉ s
  clean : ∀ c ∈ s, c ∉ forbidden
  compares : Compares none s

theorem compares_quote_iff (s : List Char) : Compares (some '"') s ↔ Compares none s := by
  have same (o : Option Char) (run : Nat) :
      Pairs (o.or (some '"')) run ↔ Pairs (o.or none) run := by
    cases o <;> simp [Pairs]
  simp only [Compares, same]

theorem mem_forbiddenIn {cs : List Char} {c : Char} :
    c ∈ forbiddenIn cs ↔ c ∈ cs ∧ c ∈ forbidden := by
  simp [forbiddenIn, List.mem_eraseDups]

theorem forbiddenIn_eq_nil_iff {cs : List Char} :
    forbiddenIn cs = [] ↔ ∀ c ∈ cs, c ∉ forbidden := by
  simp [List.eq_nil_iff_forall_not_mem, mem_forbiddenIn]

/-- A text can be quoted if it holds no quote and passes both checks. -/
theorem quotable_iff (s : List Char) : Quotable s ↔
    '"' ∉ s ∧ forbiddenIn s = [] ∧ bareEquals none s = false := by
  rw [forbiddenIn_eq_nil_iff, bareEquals_eq_false_iff]
  constructor
  · rintro ⟨noQuote, clean, compares⟩
    exact ⟨noQuote, clean, compares⟩
  · rintro ⟨noQuote, clean, compares⟩
    exact ⟨noQuote, clean, compares⟩

instance (s : List Char) : Decidable (Quotable s) := decidable_of_iff _ (quotable_iff s).symm

/-- A word of a text: a run of plain characters or a quoted span. -/
inductive Word : List Char → Prop where
  | plain {cs : List Char} (some : cs ≠ []) (all : ∀ c ∈ cs, isPlain c = true)
      (clean : ∀ c ∈ cs, c ∉ forbidden) : Word cs
  | quoted {s : List Char} (quotable : Quotable s) : Word ('"' :: (s ++ ['"']))

/-- A text that no word runs on into. -/
def Delimited (cs : List Char) : Prop := ∀ c ∈ cs.head?, isPlain c = false

@[simp] theorem close_nil (pieces : List (List Char)) : close [] pieces = pieces := rfl

theorem split_append (word : List Char) {cs : List Char} (plain : ∀ c ∈ cs, isPlain c = true)
    (rest : List Char) : split word (cs ++ rest) = split (cs.reverse ++ word) rest := by
  induction cs generalizing word with
  | nil => rfl
  | cons c cs ih =>
    obtain ⟨noQuote, noBlank, noSymbol⟩ := isPlain_eq_true_iff.1 (plain c List.mem_cons_self)
    rw [List.cons_append, split, if_neg noQuote, if_neg (by simp [noBlank]), if_neg noSymbol,
      ih _ fun d member => plain d (List.mem_cons_of_mem c member)]
    simp

theorem split_close (word : List Char) {rest : List Char} (delimited : Delimited rest) :
    split word rest = (split [] rest).map (close word) := by
  cases rest with
  | nil => rfl
  | cons c rest =>
    have ends : ¬(c ≠ '"' ∧ Text.isBlank c = false ∧ c ∉ symbols) := by
      rw [← isPlain_eq_true_iff]
      simp [delimited c rfl]
    rw [split, split]
    by_cases quote : c = '"'
    · simp [quote, Function.comp_def]
    by_cases blank : Text.isBlank c = true
    · simp [quote, blank, Function.comp_def]
    have symbol : c ∈ symbols := Decidable.byContradiction fun other =>
      ends ⟨quote, by simpa using blank, other⟩
    simp [quote, blank, symbol, Function.comp_def]

theorem split_blank (rest : List Char) : split [] (' ' :: rest) = split [] rest := by
  rw [split, if_neg (by decide), if_pos (by decide)]
  exact Option.map_id'

theorem of_mem_symbols {c : Char} (symbol : c ∈ symbols) :
    c ≠ '"' ∧ Text.isBlank c = false := by
  have apart : ∀ d ∈ symbols, d ≠ '"' ∧ Text.isBlank d = false := forall_mem_of_all (by decide)
  exact apart c symbol

theorem split_symbol {c : Char} (symbol : c ∈ symbols) (rest : List Char) :
    split [] (c :: rest) = (split [] rest).map ([c] :: ·) := by
  obtain ⟨noQuote, noBlank⟩ := of_mem_symbols symbol
  rw [split, if_neg noQuote, if_neg (by simp [noBlank]), if_pos symbol]
  rfl

theorem splitQuoted_append (span : List Char) {s : List Char} (noQuote : '"' ∉ s)
    (rest : List Char) : splitQuoted span (s ++ '"' :: rest) =
      (split [] rest).map ((span.reverse ++ (s ++ ['"'])) :: ·) := by
  induction s generalizing span with
  | nil => simp [splitQuoted]
  | cons c s ih =>
    obtain ⟨other, noQuote⟩ : c ≠ '"' ∧ '"' ∉ s := by
      simpa [eq_comm] using noQuote
    rw [List.cons_append, splitQuoted, if_neg other, ih _ noQuote]
    simp

theorem split_word {w rest : List Char} (word : Word w) (delimited : Delimited rest) :
    split [] (w ++ rest) = (split [] rest).map (w :: ·) := by
  cases word with
  | plain some all clean =>
    rw [split_append [] all, List.append_nil, split_close _ delimited]
    congr 1
    funext pieces
    simp [close, some]
  | @quoted s quotable =>
    rw [List.cons_append, split, if_pos rfl, List.append_assoc, List.singleton_append,
      splitQuoted_append _ quotable.noQuote]
    simp [Function.comp_def]

theorem join_cons {a : List Char} (alone : ∀ b, a ++ b ∉ pairs) (rest : List (List Char)) :
    join (a :: rest) = a :: join rest := by
  cases rest with
  | nil => rfl
  | cons b rest => rw [join, if_neg (alone b)]

theorem Word.exists_head {w : List Char} (word : Word w) :
    ∃ c rest, w = c :: rest ∧ (isPlain c = true ∨ c = '"') := by
  cases word with
  | plain some all clean =>
    obtain ⟨c, rest, rfl⟩ := List.exists_cons_of_ne_nil some
    exact ⟨c, rest, rfl, .inl (all c List.mem_cons_self)⟩
  | quoted => exact ⟨'"', _, rfl, .inr rfl⟩

theorem Word.append_notMem {w : List Char} (word : Word w) (b : List Char) {l : List (List Char)}
    (heads : ∀ c ∈ l.filterMap List.head?, isPlain c = false ∧ c ≠ '"') : w ++ b ∉ l := by
  obtain ⟨c, rest, rfl, kind⟩ := word.exists_head
  intro member
  obtain ⟨noPlain, noQuote⟩ := heads c (List.mem_filterMap.2 ⟨_, member, rfl⟩)
  rcases kind with plain | quote
  · simp [plain] at noPlain
  · exact noQuote quote

theorem Word.alone {w : List Char} (word : Word w) (b : List Char) : w ++ b ∉ pairs :=
  word.append_notMem b (forall_mem_of_all (by decide))

theorem Word.clean {w : List Char} (word : Word w) : ∀ c ∈ w, c ∉ forbidden := by
  cases word with
  | plain some all clean => exact clean
  | quoted quotable =>
    intro c member
    simp only [List.mem_cons, List.mem_append, List.not_mem_nil, or_false] at member
    rcases member with rfl | member | rfl
    · decide
    · exact quotable.clean c member
    · decide

theorem Word.head {w : List Char} (word : Word w) : w.head? ≠ some '=' := by
  obtain ⟨c, rest, rfl, plain | rfl⟩ := word.exists_head
  · simpa using ne_equals_of_isPlain plain
  · simp

theorem bareEquals_of_forall_ne {cs : List Char} (before : Option Char) (none : ∀ c ∈ cs, c ≠ '=') :
    bareEquals before cs = false := by
  induction cs generalizing before with
  | nil => rfl
  | cons c cs ih =>
    rw [bareEquals_cons _ (none c List.mem_cons_self)]
    exact ih _ fun d member => none d (List.mem_cons_of_mem c member)

theorem Word.bareEquals {w : List Char} (word : Word w) (before : Option Char) :
    bareEquals before w = false := by
  cases word with
  | plain some all clean =>
    exact bareEquals_of_forall_ne _ fun c member => ne_equals_of_isPlain (all c member)
  | quoted quotable =>
    rw [bareEquals_cons _ (by decide), bareEquals_append _ _ (by decide), Bool.or_eq_false_iff,
      bareEquals_eq_false_iff, compares_quote_iff]
    exact ⟨quotable.compares, rfl⟩

/-- A text lexes if it passes both checks and every quoted span in it is closed. -/
theorem ofChars_eq_ok_iff {cs : List Char} {words : List (List Char)} :
    ofChars cs = .ok words ↔ forbiddenIn cs = [] ∧ bareEquals none cs = false ∧
      ∃ pieces, split [] cs = some pieces ∧ join pieces = words := by
  cases none : forbiddenIn cs with
  | cons c rest => simp [ofChars, none]
  | nil =>
    cases paired : bareEquals .none cs with
    | true => simp [ofChars, none, paired]
    | false => cases splits : split [] cs <;> simp [ofChars, none, paired, splits]

end SkillGraph.Lexeme
