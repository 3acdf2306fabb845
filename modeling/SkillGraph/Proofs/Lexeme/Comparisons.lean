import SkillGraph.Proofs.Lexeme.Quotes
import SkillGraph.Proofs.Lexeme.Splitting

/-! Equals signs among the lexemes. The check of a text pairs them up on their own, while lexemes
join from the left and give the first one to a sign `!`, `<` or `>` in front of it. The two agree
unless such a sign stands in front of a pair. -/
namespace SkillGraph

namespace Lexeme

def signs : List Char := ['!', '<', '>']

theorem signs_subset : signs ⊆ symbols := by decide

theorem equals_notMem_signs : ∀ c ∈ some '=', c ∉ signs := by
  rintro c ⟨⟩
  decide

/-- Outside of quoted spans, a sign that joins with an equals sign stands in front of two of them,
with nothing but blanks between. -/
def Contested (cs : List Char) : Prop :=
  ∃ front sign rest, cs = front ++ sign :: rest ∧ Even (front.count '"') ∧ sign ∈ signs ∧
    ['=', '='] <+: rest.dropWhile Text.isBlank

variable {cs rest s : List Char} {pieces : List (List Char)} {c : Char} {before : Option Char}

theorem not_contested_nil : ¬Contested [] := by
  rintro ⟨front, sign, rest, same, -⟩
  simp at same

theorem contested_cons (other : c ≠ '"') : Contested (c :: rest) ↔
    c ∈ signs ∧ ['=', '='] <+: rest.dropWhile Text.isBlank ∨ Contested rest := by
  constructor
  · rintro ⟨_ | ⟨d, front⟩, sign, back, same, even, member, doubled⟩
    · obtain ⟨rfl, rfl⟩ := List.cons.inj same
      exact .inl ⟨member, doubled⟩
    · obtain ⟨rfl, rfl⟩ := List.cons.inj same
      rw [List.count_cons_of_ne other] at even
      exact .inr ⟨front, sign, back, rfl, even, member, doubled⟩
  · rintro (⟨member, doubled⟩ | ⟨front, sign, back, rfl, even, member, doubled⟩)
    · exact ⟨[], c, rest, rfl, by simp, member, doubled⟩
    · refine ⟨c :: front, sign, back, rfl, ?_, member, doubled⟩
      rwa [List.count_cons_of_ne other]

theorem contested_word {w : List Char} (plain : ∀ c ∈ w, isPlain c = true) :
    Contested (w ++ rest) ↔ Contested rest := by
  induction w with
  | nil => rfl
  | cons c w ih =>
    obtain ⟨first, others⟩ := List.forall_mem_cons.1 plain
    obtain ⟨noQuote, -, noSymbol⟩ := isPlain_eq_true_iff.1 first
    have noSign : c ∉ signs := fun sign => noSymbol (signs_subset sign)
    rw [List.cons_append, contested_cons noQuote, ih others]
    simp [noSign]

theorem contested_quoted (noQuote : '"' ∉ s) :
    Contested ('"' :: (s ++ '"' :: rest)) ↔ Contested rest := by
  have none : s.count '"' = 0 := List.count_eq_zero.2 noQuote
  constructor
  · rintro ⟨_ | ⟨d, front⟩, sign, back, same, even, member, doubled⟩
    · obtain ⟨rfl, -⟩ := List.cons.inj same
      exact absurd member (by decide)
    obtain ⟨rfl, tail⟩ := List.cons.inj same
    rcases List.append_eq_append_iff.1 tail with ⟨_ | ⟨d, inner⟩, rfl, behind⟩ | ⟨inner, rfl, -⟩
    · obtain ⟨rfl, -⟩ := List.cons.inj behind
      exact absurd member (by decide)
    · obtain ⟨rfl, rfl⟩ := List.cons.inj behind
      refine ⟨inner, sign, back, rfl, ?_, member, doubled⟩
      simpa [none, Nat.even_add_one] using even
    · have : front.count '"' = 0 := by
        rw [List.count_append] at none
        omega
      simp [this] at even
  · rintro ⟨front, sign, back, rfl, even, member, doubled⟩
    refine ⟨'"' :: (s ++ '"' :: front), sign, back, by simp, ?_, member, doubled⟩
    simpa [none, Nat.even_add_one] using even

theorem lone_mem_join_of_pair {a b : List Char} (pair : a ++ b ∈ pairs) :
    ['='] ∈ join (a :: b :: pieces) ↔ ['='] ∈ join pieces := by
  have long : ['='] ≠ a ++ b := fun same => absurd (same ▸ pair) (by decide)
  rw [join, if_pos pair, List.mem_cons, or_iff_right long]

theorem lone_mem_join_of_head (apart : pieces.head? ≠ some ['=']) :
    ['='] ∈ join (['='] :: pieces) := by
  cases pieces with
  | nil => exact List.mem_cons_self
  | cons b pieces =>
    have alone : ['='] ++ b ∉ pairs := by
      intro pair
      have : b = ['='] := by simpa [pairs] using pair
      exact apart (by rw [this]; rfl)
    rw [join, if_neg alone]
    exact List.mem_cons_self

theorem of_append_equals_mem_pairs {a : List Char} (pair : a ++ ['='] ∈ pairs) :
    a = ['='] ∨ a ∈ signs.map ([·]) := by
  have ends : ∀ p ∈ pairs, p.getLast? = some '=' →
      p.dropLast = ['='] ∨ p.dropLast ∈ signs.map ([·]) := by decide
  simpa using ends _ pair (by simp)

theorem lone_mem_join_cons {a : List Char} (other : a ≠ ['='])
    (apart : a ∈ signs.map ([·]) → pieces.head? ≠ some ['=']) :
    ['='] ∈ join (a :: pieces) ↔ ['='] ∈ join pieces := by
  induction pieces generalizing a with
  | nil => simp [join, Ne.symm other]
  | cons b pieces ih =>
    by_cases pair : a ++ b ∈ pairs
    · have unlike : b ≠ ['='] := by
        rintro rfl
        rcases of_append_equals_mem_pairs pair with same | sign
        · exact other same
        · exact apart sign rfl
      have noSign : b ∉ signs.map ([·]) := by
        have ends : ∀ p ∈ pairs, ∀ c ∈ signs, p.getLast? ≠ some c := by simp [pairs, signs]
        intro sign
        obtain ⟨c, member, rfl⟩ := List.mem_map.1 sign
        exact ends _ pair c member (by simp)
      rw [lone_mem_join_of_pair pair, ih unlike fun sign => absurd sign noSign]
    · rw [join, if_neg pair, List.mem_cons, or_iff_right (Ne.symm other)]

theorem noSign_of_isBlank (blank : Text.isBlank c = true) : c ∉ signs := by
  intro sign
  simp [of_mem_symbols (signs_subset sign)] at blank

namespace Splits

/-- The first piece is an equals sign if the text begins with one, but for blanks. -/
theorem head?_eq_iff (splits : Splits cs pieces) :
    pieces.head? = some ['='] ↔ (cs.dropWhile Text.isBlank).head? = some '=' := by
  induction splits with
  | nil => simp
  | blank blank _ ih => rw [List.dropWhile_cons_of_pos blank, ih]
  | symbol symbol _ _ =>
    rw [List.dropWhile_cons_of_neg (by simp [of_mem_symbols symbol])]
    simp
  | @word w rest pieces some plain _ _ _ =>
    obtain ⟨c, w, rfl⟩ := List.exists_cons_of_ne_nil some
    have first := plain c List.mem_cons_self
    have blank := (isPlain_eq_true_iff.1 first).2.1
    rw [List.cons_append, List.dropWhile_cons_of_neg (by simp [blank])]
    simp [ne_equals_of_isPlain first]
  | quoted _ _ _ =>
    rw [List.dropWhile_cons_of_neg (by decide)]
    simp

theorem exists_of_leads (splits : Splits cs pieces) (leads : pieces.head? = some ['=']) :
    ∃ rest others, cs.dropWhile Text.isBlank = '=' :: rest ∧ pieces = ['='] :: others ∧
      Splits rest others := by
  obtain ⟨rest, starts⟩ := List.head?_eq_some_iff.1 (splits.head?_eq_iff.1 leads)
  have whole := splits.dropBlanks
  rw [starts] at whole
  obtain ⟨others, same, later⟩ := whole.of_symbol (by decide)
  exact ⟨rest, others, starts, same, later⟩

end Splits

/-- Behind blanks, a sign in front of them makes no comparison. -/
theorem bareEquals_dropBlanks (paired : bareEquals before cs = false) :
    ∃ before', bareEquals before' (cs.dropWhile Text.isBlank) = false ∧
      (before' = before ∧ cs.dropWhile Text.isBlank = cs ∨ ∀ c ∈ before', c ∉ signs) := by
  induction cs generalizing before with
  | nil => exact ⟨before, paired, .inl ⟨rfl, rfl⟩⟩
  | cons c cs ih =>
    by_cases blank : Text.isBlank c = true
    · have apart : c ≠ '=' := by
        rintro rfl
        exact absurd blank (by decide)
      rw [bareEquals_cons _ apart] at paired
      obtain ⟨before', paired', ⟨rfl, -⟩ | fresh⟩ := ih paired
      · refine ⟨some c, by rwa [List.dropWhile_cons_of_pos blank], .inr ?_⟩
        rintro d ⟨⟩
        exact noSign_of_isBlank blank
      · exact ⟨before', by rwa [List.dropWhile_cons_of_pos blank], .inr fresh⟩
    · exact ⟨before, by rwa [List.dropWhile_cons_of_neg blank],
        .inl ⟨rfl, List.dropWhile_cons_of_neg blank⟩⟩

/-- An equals sign that is not doubled belongs to a sign in front of it. -/
theorem of_bareEquals_alone (alone : ∀ back, rest ≠ '=' :: back)
    (paired : bareEquals before ('=' :: rest) = false) :
    (∃ c ∈ before, c ∈ signs) ∧ bareEquals (some '=') rest = false := by
  rw [bareEquals] at paired
  · split at paired
    case isTrue signed =>
      refine ⟨?_, paired⟩
      simp only [Bool.or_eq_true, decide_eq_true_eq] at signed
      rcases signed with (rfl | rfl) | rfl <;> exact ⟨_, rfl, by decide⟩
    case isFalse => cases paired
  · exact alone

/-- Without a sign in front of them, equals signs come in pairs. -/
theorem exists_pair (fresh : ∀ c ∈ before, c ∉ signs)
    (paired : bareEquals before ('=' :: rest) = false) :
    ∃ back, rest = '=' :: back ∧ bareEquals (some '=') back = false := by
  by_cases double : ∃ back, rest = '=' :: back
  · obtain ⟨back, rfl⟩ := double
    exact ⟨back, rfl, by rwa [bareEquals] at paired⟩
  · obtain ⟨⟨c, member, sign⟩, -⟩ := of_bareEquals_alone (not_exists.1 double) paired
    exact absurd sign (fresh c member)

/-- A text without bare equals signs has an even number of them in front. With one more, a lone one is
left. -/
theorem lone_mem_join_equals (splits : Splits cs pieces) (fresh : ∀ c ∈ before, c ∉ signs)
    (paired : bareEquals before cs = false) : ['='] ∈ join (['='] :: pieces) := by
  induction n : cs.length using Nat.strongRecOn generalizing cs pieces before with
  | ind n ih =>
    subst n
    by_cases leads : pieces.head? = some ['=']
    · obtain ⟨rest, _, starts, rfl, first⟩ := splits.exists_of_leads leads
      obtain ⟨before', paired', origin⟩ := bareEquals_dropBlanks paired
      have fresh' : ∀ c ∈ before', c ∉ signs := by
        rcases origin with ⟨rfl, -⟩ | fresh'
        · exact fresh
        · exact fresh'
      rw [starts] at paired'
      obtain ⟨back, rfl, later⟩ := exists_pair fresh' paired'
      obtain ⟨others, rfl, second⟩ := first.of_symbol (by decide)
      have short : back.length < cs.length := by
        have := (List.dropWhile_sublist Text.isBlank (l := cs)).length_le
        rw [starts, List.length_cons, List.length_cons] at this
        omega
      rw [lone_mem_join_of_pair (by decide)]
      exact ih back.length short second equals_notMem_signs later rfl
    · exact lone_mem_join_of_head leads

theorem append_equals_mem_pairs (sign : c ∈ signs) : [c] ++ ['='] ∈ pairs := by
  have all : ∀ c ∈ signs, [c] ++ ['='] ∈ pairs := by simp [signs, pairs]
  exact all c sign

/-- Behind a sign, an equals sign is left over if the sign takes the first one of a pair. -/
theorem lone_mem_join_sign (sign : c ∈ signs) (splits : Splits cs pieces)
    (paired : bareEquals (some c) cs = false)
    (later : ∀ rest others before, rest.length ≤ cs.length → Splits rest others →
      (∀ d ∈ before, d ∉ signs) → bareEquals before rest = false →
        (['='] ∈ join others ↔ Contested rest)) :
    ['='] ∈ join ([c] :: pieces) ↔ ['=', '='] <+: cs.dropWhile Text.isBlank ∨ Contested cs := by
  by_cases leads : pieces.head? = some ['=']
  · obtain ⟨rest, others, starts, rfl, first⟩ := splits.exists_of_leads leads
    rw [lone_mem_join_of_pair (append_equals_mem_pairs sign), starts]
    obtain ⟨before', paired', origin⟩ := bareEquals_dropBlanks paired
    rw [starts] at paired'
    by_cases double : ∃ back, rest = '=' :: back
    · obtain ⟨back, rfl⟩ := double
      obtain ⟨others, rfl, second⟩ := first.of_symbol (by decide)
      rw [bareEquals] at paired'
      exact iff_of_true (lone_mem_join_equals second equals_notMem_signs paired') (.inl ⟨back, rfl⟩)
    · rcases origin with ⟨rfl, same⟩ | fresh
      · obtain rfl : '=' :: rest = cs := starts.symm.trans same
        have single : ¬['=', '='] <+: '=' :: rest := by
          rintro ⟨back, same⟩
          exact double ⟨back, by simpa using same.symm⟩
        rw [or_iff_right single, contested_cons (by decide),
          or_iff_right fun h => absurd h.1 (by decide)]
        exact later rest others (some '=') (by simp) first equals_notMem_signs
          (of_bareEquals_alone (not_exists.1 double) paired).2
      · obtain ⟨back, same, -⟩ := exists_pair fresh paired'
        exact absurd ⟨back, same⟩ double
  · have apart : (cs.dropWhile Text.isBlank).head? ≠ some '=' := fun h =>
      leads (splits.head?_eq_iff.2 h)
    have single : ¬['=', '='] <+: cs.dropWhile Text.isBlank := by
      rintro ⟨back, same⟩
      exact apart (by rw [← same]; rfl)
    have head : cs.head? ≠ some '=' := by
      intro head
      obtain ⟨rest, rfl⟩ := List.head?_eq_some_iff.1 head
      exact apart (by rw [List.dropWhile_cons_of_neg (by decide)]; rfl)
    have other : [c] ≠ ['='] := by
      rintro ⟨⟩
      exact absurd sign (by decide)
    rw [lone_mem_join_cons other fun _ => leads, or_iff_right single]
    refine later cs pieces none (Nat.le_refl _) splits (by simp) ?_
    simpa [bareEquals] using (bareEquals_append (some c) [] head).symm.trans paired

/-- An equals sign stays alone exactly if a pair is contested. -/
theorem lone_mem_join_iff (splits : Splits cs pieces) (fresh : ∀ c ∈ before, c ∉ signs)
    (paired : bareEquals before cs = false) : ['='] ∈ join pieces ↔ Contested cs := by
  induction n : cs.length using Nat.strongRecOn generalizing cs pieces before with
  | ind n ih =>
    subst n
    cases splits with
    | nil => simp [join, not_contested_nil]
    | @blank c rest pieces blank later =>
      have apart : c ≠ '=' ∧ c ≠ '"' := by
        constructor <;> (rintro rfl; exact absurd blank (by decide))
      have noSign := noSign_of_isBlank blank
      rw [bareEquals_cons _ apart.1] at paired
      rw [contested_cons apart.2, or_iff_right fun h => noSign h.1]
      exact ih rest.length (by simp) later (by rintro d ⟨⟩; exact noSign) paired rfl
    | @symbol c rest pieces symbol later =>
      by_cases equals : c = '='
      · subst equals
        obtain ⟨back, rfl, paired'⟩ := exists_pair fresh paired
        obtain ⟨others, rfl, later'⟩ := later.of_symbol (by decide)
        rw [lone_mem_join_of_pair (by decide), contested_cons (by decide),
          contested_cons (by decide)]
        rw [ih back.length (by simp) later' equals_notMem_signs paired' rfl]
        simp [signs]
      rw [bareEquals_cons _ equals] at paired
      rw [contested_cons (of_mem_symbols symbol).1]
      by_cases sign : c ∈ signs
      · rw [and_iff_right sign]
        refine lone_mem_join_sign sign later paired ?_
        intro back others before' short splits fresh paired
        exact ih back.length (Nat.lt_succ_of_le short) splits fresh paired rfl
      · rw [lone_mem_join_cons (by simpa using equals) fun h => absurd h (by simpa using sign),
          or_iff_right fun h => sign h.1]
        exact ih rest.length (by simp) later (by rintro d ⟨⟩; exact sign) paired rfl
    | @word w rest pieces some plain delimited later =>
      obtain ⟨front, d, rfl⟩ := (List.eq_nil_or_concat' w).resolve_left some
      have last := plain d (by simp)
      have paired' : bareEquals (.some d) rest = false :=
        settled_of_bareEquals paired front d rest (by simp) (ne_equals_of_isPlain last)
      have noSymbol := (isPlain_eq_true_iff.1 last).2.2
      have word : ∀ c ∈ front ++ [d], c ∉ symbols := fun c member =>
        (isPlain_eq_true_iff.1 (plain c member)).2.2
      rw [contested_word plain, lone_mem_join_cons]
      · exact ih rest.length (by simp; omega) later
          (by rintro e ⟨⟩; exact fun sign => noSymbol (signs_subset sign)) paired' rfl
      · intro same
        exact word '=' (by simp [same]) (by decide)
      · intro sign
        obtain ⟨c, member, same⟩ := List.mem_map.1 sign
        exact absurd (signs_subset member) (word c (by simp [← same]))
    | @quoted s rest pieces noQuote later =>
      have paired' : bareEquals (some '"') rest = false :=
        settled_of_bareEquals paired ('"' :: s) '"' rest (by simp) (by decide)
      rw [contested_quoted noQuote, lone_mem_join_cons (by simp) (by simp [signs])]
      exact ih rest.length (by simp; omega) later (by rintro e ⟨⟩; decide) paired' rfl

/-- The lexemes with an equals sign in them. -/
theorem cases_of_equals_mem {w : List Char} {words : List (List Char)}
    (lexed : ofChars cs = .ok words) (member : w ∈ words) (equals : '=' ∈ w) :
    (∃ s, '"' ∉ s ∧ w = quote s) ∨ w ∈ [['=', '='], ['!', '='], ['<', '='], ['>', '=']] ∨
      w = ['='] := by
  rcases piece_of_ofChars lexed member with (word | ⟨c, -, rfl⟩) | pair
  · cases word with
    | plain _ all _ => exact absurd rfl (ne_equals_of_isPlain (all '=' equals))
    | @quoted s quotable => exact .inl ⟨s, quotable.noQuote, rfl⟩
  · obtain rfl : '=' = c := by simpa using equals
    exact .inr (.inr rfl)
  · have comparisons : ∀ p ∈ pairs, '=' ∈ p →
        p ∈ [['=', '='], ['!', '='], ['<', '='], ['>', '=']] := by simp [pairs]
    exact .inr (.inl (comparisons w pair equals))

end Lexeme

/-- Equals signs among the lexemes. A lexeme with an equals sign in it is a quoted span, one of the
four comparisons or a lone equals sign, and the last of these is there exactly if the text has a sign
`!`, `<` or `>` in front of a pair of equals signs, which joins with the first one. -/
theorem lone_equals_iff_of_lexemes {text : String} {words : List String}
    (lexed : lexemes text = .ok words) :
    ("=" ∈ words ↔ Lexeme.Contested text.toList) ∧
    ∀ w ∈ words, '=' ∈ w.toList → (∃ s, '"' ∉ s.toList ∧ w = "\"" ++ s ++ "\"") ∨
      w ∈ ["==", "!=", "<=", ">="] ∨ w = "=" := by
  obtain ⟨pieces, chars, rfl⟩ := map_eq_ok_iff.1 lexed
  constructor
  · obtain ⟨-, paired, parts, splits, rfl⟩ := Lexeme.ofChars_eq_ok_iff.1 chars
    rw [← Lexeme.lone_mem_join_iff (Lexeme.splits_of_split splits) (by simp) paired]
    exact List.mem_map_of_injective (fun _ _ => String.ofList_injective)
  · intro w member equals
    obtain ⟨p, inside, rfl⟩ := List.mem_map.1 member
    rw [String.toList_ofList] at equals
    rcases Lexeme.cases_of_equals_mem chars inside equals with ⟨s, noQuote, rfl⟩ | pair | rfl
    · refine .inl ⟨String.ofList s, by simpa using noQuote, ?_⟩
      apply String.toList_injective
      rw [Lexeme.toList_quote, String.toList_ofList, String.toList_ofList]
    · exact .inr (.inl (List.mem_map_of_mem (f := String.ofList) pair))
    · exact .inr (.inr rfl)

/-- A sign takes the first one of two equals signs across blanks too, but not one in quotes. -/
theorem lone_equals_iff_of_lexemes_spaced :
    (lexemes "a < == b" = .ok ["a", "<=", "=", "b"] ∧ Lexeme.Contested "a < == b".toList) ∧
      lexemes "a != == \"!==\"" = .ok ["a", "!=", "==", "\"!==\""] ∧
        ¬Lexeme.Contested "a != == \"!==\"".toList := by
  have spaced : lexemes "a < == b" = .ok ["a", "<=", "=", "b"] := rfl
  have apart : lexemes "a != == \"!==\"" = .ok ["a", "!=", "==", "\"!==\""] := rfl
  exact ⟨⟨spaced, (lone_equals_iff_of_lexemes spaced).1.1 (by decide)⟩, apart,
    fun contested => absurd ((lone_equals_iff_of_lexemes apart).1.2 contested) (by decide)⟩

/-- The check pairs up the two equals signs, but the first one joins with the sign in front. -/
theorem lone_equals_of_contested :
    ∃ words, lexemes "1 !== 2" = .ok words ∧ words = ["1", "!=", "=", "2"] ∧ "=" ∈ words :=
  ⟨_, rfl, rfl, by decide⟩

end SkillGraph
