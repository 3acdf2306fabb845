import SkillGraph.Proofs.Lexeme.Words

/-! Quoted spans inside of a text. The two checks of a text look into its quoted spans. Behind them
a span is one lexeme whatever it holds, and the lexemes around it do not depend on it. -/
namespace SkillGraph.Lexeme

def quote (s : List Char) : List Char := '"' :: (s ++ ['"'])

theorem toList_quote (s : String) : ("\"" ++ s ++ "\"").toList = quote s.toList := by
  simp [quote]

theorem quote_append (s back : List Char) : quote s ++ back = '"' :: (s ++ '"' :: back) := by
  simp [quote]

variable {front s back : List Char}

theorem bareEquals_quote (s : List Char) : bareEquals (some '"') s = bareEquals none s := by
  have same : bareEquals (some '"') s = false ↔ bareEquals none s = false := by
    rw [bareEquals_eq_false_iff, bareEquals_eq_false_iff, compares_quote_iff]
  cases inside : bareEquals none s with
  | false => exact same.2 inside
  | true =>
    rw [inside] at same
    simpa using same

/-- What is quoted is checked on its own. -/
theorem bareEquals_append_quote (before : Option Char) (front s back : List Char) :
    bareEquals before (front ++ (quote s ++ back)) =
      (bareEquals before front || bareEquals none s || bareEquals none back) := by
  rw [quote_append, bareEquals_append_cons _ _ (by decide), bareEquals_append_cons _ _ (by decide),
    bareEquals_quote, bareEquals_quote, Bool.or_assoc]

theorem forbiddenIn_append_quote (front s back : List Char) :
    forbiddenIn (front ++ (quote s ++ back)) = forbiddenIn (front ++ (s ++ back)) := by
  have mark : '"' ∉ forbidden := by decide
  simp [forbiddenIn, quote, mark]

/-- What a text that lexes has between quotes could be quoted again. -/
theorem quotable_of_ofChars {words : List (List Char)} (noQuote : '"' ∉ s)
    (lexed : ofChars (front ++ (quote s ++ back)) = .ok words) : Quotable s := by
  obtain ⟨none, paired, -⟩ := ofChars_eq_ok_iff.1 lexed
  rw [forbiddenIn_append_quote, forbiddenIn_eq_nil_iff] at none
  simp only [bareEquals_append_quote, Bool.or_eq_false_iff] at paired
  exact ⟨noQuote, fun c member => none c (by simp [member]),
    (bareEquals_eq_false_iff _ s).1 paired.1.2⟩

/-- In a text that would lex, what is between quotes is refused for its own characters. -/
theorem ofChars_quote {words : List (List Char)} (noQuote : '"' ∉ s)
    (lexed : ofChars (front ++ (quote [] ++ back)) = .ok words) (other : ¬Quotable s) :
    ofChars (front ++ (quote s ++ back)) =
      if forbiddenIn s ≠ [] then .error (.forbiddenChars (forbiddenIn s))
      else .error .bareAssignment := by
  obtain ⟨none, paired, -⟩ := ofChars_eq_ok_iff.1 lexed
  rw [forbiddenIn_append_quote, List.nil_append, forbiddenIn_eq_nil_iff] at none
  simp only [bareEquals_append_quote, Bool.or_eq_false_iff] at paired
  have found : forbiddenIn (front ++ (quote s ++ back)) = forbiddenIn s := by
    have clean : (front.filter (· ∈ forbidden)) = [] ∧ (back.filter (· ∈ forbidden)) = [] := by
      simp only [List.filter_eq_nil_iff, decide_eq_true_eq]
      exact ⟨fun c member => none c (by simp [member]), fun c member => none c (by simp [member])⟩
    rw [forbiddenIn_append_quote, forbiddenIn, List.filter_append, List.filter_append, clean.1,
      clean.2, List.nil_append, List.append_nil, forbiddenIn]
  by_cases clean : forbiddenIn s = []
  · have bare : bareEquals .none s = true := by
      by_contra settled
      exact other ((quotable_iff s).2 ⟨noQuote, clean, by simpa using settled⟩)
    simp [ofChars, found, clean, bareEquals_append_quote, bare]
  · simp [ofChars, found, clean]

theorem close_append (word : List Char) (pieces others : List (List Char)) :
    close word (pieces ++ others) = close word pieces ++ others := by
  cases word <;> simp [close]

/-- A text with an even number of quotes ends outside of all spans, and what it is split into does
not depend on the quote behind it. -/
theorem split_before_quote (cs : List Char) :
    (Even (cs.count '"') → ∀ word, ∃ pieces, ∀ rest,
      split word (cs ++ '"' :: rest) = (split [] ('"' :: rest)).map (pieces ++ ·)) ∧
    (¬Even (cs.count '"') → ∀ span, ∃ pieces, ∀ rest,
      splitQuoted span (cs ++ '"' :: rest) = (split [] ('"' :: rest)).map (pieces ++ ·)) := by
  induction cs with
  | nil =>
    refine ⟨fun _ word => ⟨close word [], fun rest => ?_⟩, fun odd => absurd (by simp) odd⟩
    rw [List.nil_append, split, if_pos rfl, split, if_pos rfl, Option.map_map]
    congr 1
    funext pieces
    exact close_append word [] pieces
  | cons c cs ih =>
    by_cases quote : c = '"'
    · subst quote
      rw [List.count_cons_self, Nat.even_add_one, not_not]
      refine ⟨fun odd word => ?_, fun even span => ?_⟩
      · obtain ⟨pieces, splits⟩ := ih.2 odd ['"']
        refine ⟨close word pieces, fun rest => ?_⟩
        rw [List.cons_append, split, if_pos rfl, splits, Option.map_map]
        congr 1
        funext others
        exact close_append word pieces others
      · obtain ⟨pieces, splits⟩ := ih.1 even []
        refine ⟨('"' :: span).reverse :: pieces, fun rest => ?_⟩
        rw [List.cons_append, splitQuoted, if_pos rfl, splits, Option.map_map]
        rfl
    · rw [List.count_cons_of_ne (Ne.symm (by simpa using Ne.symm quote))]
      refine ⟨fun even word => ?_, fun odd span => ?_⟩
      · by_cases blank : Text.isBlank c = true
        · obtain ⟨pieces, splits⟩ := ih.1 even []
          refine ⟨close word pieces, fun rest => ?_⟩
          rw [List.cons_append, split, if_neg quote, if_pos blank, splits, Option.map_map]
          congr 1
          funext others
          exact close_append word pieces others
        by_cases symbol : c ∈ symbols
        · obtain ⟨pieces, splits⟩ := ih.1 even []
          refine ⟨close word ([c] :: pieces), fun rest => ?_⟩
          rw [List.cons_append, split, if_neg quote, if_neg blank, if_pos symbol, splits,
            Option.map_map]
          congr 1
          funext others
          exact close_append word ([c] :: pieces) others
        · obtain ⟨pieces, splits⟩ := ih.1 even (c :: word)
          refine ⟨pieces, fun rest => ?_⟩
          rw [List.cons_append, split, if_neg quote, if_neg blank, if_neg symbol, splits]
      · obtain ⟨pieces, splits⟩ := ih.2 odd (c :: span)
        refine ⟨pieces, fun rest => ?_⟩
        rw [List.cons_append, splitQuoted, if_neg quote, splits]

/-- A quoted span is a piece of its own, wherever it stands outside of other spans. -/
theorem split_quote (even : Even (front.count '"')) : ∃ pieces, ∀ s back, '"' ∉ s →
    split [] (front ++ (quote s ++ back)) = (split [] back).map (pieces ++ quote s :: ·) := by
  obtain ⟨pieces, splits⟩ := (split_before_quote front).1 even []
  refine ⟨pieces, fun s back noQuote => ?_⟩
  rw [quote_append, splits, split, if_pos rfl, splitQuoted_append _ noQuote]
  simp [Function.comp_def, quote]

/-- A quoted span joins with nothing before it and nothing behind it. -/
theorem join_quote (pieces : List (List Char)) (s : List Char) (rest : List (List Char)) :
    join (pieces ++ quote s :: rest) = join pieces ++ quote s :: join rest := by
  have alone {p : List Char} (member : '"' ∈ p) : p ∉ pairs := by
    have none : ∀ q ∈ pairs, '"' ∉ q := by decide
    exact fun pair => none p pair member
  have last : join (quote s :: rest) = quote s :: join rest :=
    join_cons (fun b => alone (by simp [quote])) rest
  fun_induction join pieces with
  | case1 a b more pair ih => rw [List.cons_append, List.cons_append, join, if_pos pair, ih]; rfl
  | case2 a b more apart ih =>
    rw [List.cons_append, List.cons_append, join, if_neg apart, ← List.cons_append, ih]
    rfl
  | case3 pieces short =>
    rcases pieces with _ | ⟨a, _ | ⟨b, more⟩⟩
    · exact last
    · rw [List.singleton_append, join, if_neg (alone (by simp [quote])), last]
      rfl
    · exact absurd rfl (short a b more)

/-- Another quotable span in the same place changes no other lexeme. -/
theorem ofChars_swap (even : Even (front.count '"')) {s' : List Char} (quotable : Quotable s)
    (quotable' : Quotable s') {words : List (List Char)}
    (lexed : ofChars (front ++ (quote s ++ back)) = .ok words) :
    ∃ first others, words = first ++ quote s :: others ∧
      ofChars (front ++ (quote s' ++ back)) = .ok (first ++ quote s' :: others) := by
  obtain ⟨pieces, splits⟩ := split_quote even
  obtain ⟨none, paired, whole, found, rfl⟩ := ofChars_eq_ok_iff.1 lexed
  rw [splits s back quotable.noQuote] at found
  obtain ⟨behind, later, rfl⟩ := Option.map_eq_some_iff.1 found
  refine ⟨join pieces, join behind, join_quote pieces s behind, ?_⟩
  refine ofChars_eq_ok_iff.2 ⟨?_, ?_, pieces ++ quote s' :: behind, ?_, join_quote pieces s' behind⟩
  · rw [forbiddenIn_append_quote, forbiddenIn_eq_nil_iff] at none ⊢
    intro c member
    simp only [List.mem_append] at member none
    rcases member with member | member | member
    · exact none c (.inl member)
    · exact quotable'.clean c member
    · exact none c (.inr (.inr member))
  · have settled : bareEquals .none s' = false :=
      (bareEquals_eq_false_iff _ s').2 quotable'.compares
    simp only [bareEquals_append_quote, Bool.or_eq_false_iff] at paired ⊢
    exact ⟨⟨paired.1.1, settled⟩, paired.2⟩
  · rw [splits s' back quotable'.noQuote, later]
    rfl

end SkillGraph.Lexeme
