import SkillGraph.Proofs.Lexeme.Comparisons

/-! Why texts are refused. Each of the three refusals is decided by a condition on the characters of
the text alone: full-width punctuation, a run of equals signs that makes no comparisons, and an odd
number of quotes. The first one that holds is reported, and a text without them has lexemes. -/
namespace SkillGraph

namespace Lexeme

/-- Some longest run of equals signs has an odd length and is no single sign directly behind `!`,
`<` or `>`. -/
def BareRun (cs : List Char) : Prop :=
  ∃ front run back, cs = front ++ List.replicate run '=' ++ back ∧
    front.getLast? ≠ some '=' ∧ back.head? ≠ some '=' ∧ Odd run ∧
    ¬(run = 1 ∧ ∃ sign ∈ signs, front.getLast? = some sign)

variable {cs : List Char} {c : Char}

theorem pairs_iff {before : Option Char} {run : Nat} : Pairs before run ↔
    Odd run → run = 1 ∧ ∃ sign ∈ signs, before = some sign := by
  rw [Pairs, ← Nat.even_iff, ← Nat.not_odd_iff_even, ← imp_iff_not_or]
  simp [signs]

theorem not_bareRun_iff : ¬BareRun cs ↔ bareEquals none cs = false := by
  rw [bareEquals_eq_false_iff]
  constructor
  · intro paired front run back same _ ended begun
    rw [Option.or_none, pairs_iff]
    intro odd
    by_contra bare
    exact paired ⟨front, run, back, same, ended, begun, odd, bare⟩
  · rintro compares ⟨front, run, back, same, ended, begun, odd, bare⟩
    have paired := compares front run back same odd.pos ended begun
    rw [Option.or_none, pairs_iff] at paired
    exact bare (paired odd)

/-- A text splits from outside of quotes if its quotes are even in number, and from within if they
are odd. -/
theorem isSome_split_iff (cs : List Char) :
    (∀ word, (split word cs).isSome = true ↔ Even (cs.count '"')) ∧
      ∀ span, (splitQuoted span cs).isSome = true ↔ Odd (cs.count '"') := by
  induction cs with
  | nil => simp [split, splitQuoted]
  | cons c cs ih =>
    obtain ⟨outside, within⟩ := ih
    by_cases quote : c = '"'
    · subst quote
      rw [List.count_cons_self, Nat.even_add_one, Nat.odd_add_one, Nat.not_even_iff_odd,
        Nat.not_odd_iff_even]
      refine ⟨fun word => ?_, fun span => ?_⟩
      · rw [split, if_pos rfl, Option.isSome_map, within]
      · rw [splitQuoted, if_pos rfl, Option.isSome_map, outside]
    · rw [List.count_cons_of_ne quote]
      refine ⟨fun word => ?_, fun span => ?_⟩
      · rw [split, if_neg quote]
        split_ifs
        · rw [Option.isSome_map, outside]
        · rw [Option.isSome_map, outside]
        · rw [outside]
      · rw [splitQuoted, if_neg quote, within]

theorem forbiddenIn_concat (cs : List Char) (c : Char) : forbiddenIn (cs ++ [c]) =
    if c ∈ forbidden ∧ c ∉ cs then forbiddenIn cs ++ [c] else forbiddenIn cs := by
  rw [forbiddenIn, List.filter_append, List.eraseDups_append, ← forbiddenIn]
  by_cases bad : c ∈ forbidden
  · by_cases seen : c ∈ cs
    · simp [bad, seen, List.removeAll]
    · have one : [c].eraseDups = [c] := rfl
      simp [bad, seen, List.removeAll, one]
  · simp [bad, List.removeAll]

theorem pairwise_forbiddenIn (cs : List Char) :
    (forbiddenIn cs).Pairwise fun c d => cs.idxOf c < cs.idxOf d := by
  induction cs using List.reverseRecOn with
  | nil => exact .nil
  | append_singleton cs c ih =>
    have kept : (forbiddenIn cs).Pairwise fun d e => (cs ++ [c]).idxOf d < (cs ++ [c]).idxOf e := by
      refine ih.imp_of_mem ?_
      intro d e first second before
      rwa [List.idxOf_append_of_mem (mem_forbiddenIn.1 first).1,
        List.idxOf_append_of_mem (mem_forbiddenIn.1 second).1]
    rw [forbiddenIn_concat]
    split_ifs with fresh
    · refine List.pairwise_append.2 ⟨kept, List.pairwise_singleton _ _, ?_⟩
      intro d first e last
      obtain rfl := List.mem_singleton.1 last
      have earlier := (mem_forbiddenIn.1 first).1
      rw [List.idxOf_append_of_mem earlier, List.idxOf_append_of_notMem fresh.2]
      have := List.idxOf_lt_length_of_mem earlier
      omega
    · exact kept

variable {text : String}

theorem forbiddenIn_ne_nil_iff : forbiddenIn cs ≠ [] ↔ ∃ c ∈ cs, c ∈ forbidden := by
  simp [forbiddenIn_eq_nil_iff]

theorem lexemes_of_forbidden (bad : ∃ c ∈ text.toList, c ∈ forbidden) :
    lexemes text = .error (.forbiddenChars (forbiddenIn text.toList)) := by
  have found := forbiddenIn_ne_nil_iff.2 bad
  simp [lexemes, ofChars, found, Except.map]

theorem lexemes_of_bareRun (clean : ∀ c ∈ text.toList, c ∉ forbidden)
    (bare : BareRun text.toList) : lexemes text = .error .bareAssignment := by
  have none := forbiddenIn_eq_nil_iff.2 clean
  have paired : bareEquals .none text.toList = true := by
    by_contra settled
    exact not_bareRun_iff.2 (by simpa using settled) bare
  simp [lexemes, ofChars, none, paired, Except.map]

theorem lexemes_of_odd (clean : ∀ c ∈ text.toList, c ∉ forbidden)
    (paired : ¬BareRun text.toList) (odd : Odd (text.toList.count '"')) :
    lexemes text = .error .unterminatedQuote := by
  have none := forbiddenIn_eq_nil_iff.2 clean
  have unclosed : split [] text.toList = .none := by
    rw [← Option.not_isSome_iff_eq_none, (isSome_split_iff _).1, Nat.not_even_iff_odd]
    exact odd
  simp [lexemes, ofChars, none, not_bareRun_iff.1 paired, unclosed, Except.map]

theorem exists_lexemes (clean : ∀ c ∈ text.toList, c ∉ forbidden)
    (paired : ¬BareRun text.toList) (even : Even (text.toList.count '"')) :
    ∃ words, lexemes text = .ok words := by
  have closed := ((isSome_split_iff text.toList).1 []).2 even
  obtain ⟨pieces, splits⟩ := Option.isSome_iff_exists.1 closed
  have chars : ofChars text.toList = .ok (join pieces) := ofChars_eq_ok_iff.2
    ⟨forbiddenIn_eq_nil_iff.2 clean, not_bareRun_iff.1 paired, pieces, splits, rfl⟩
  exact ⟨_, map_eq_ok_iff.2 ⟨_, chars, rfl⟩⟩

/-- Only forbidden characters are refused as such. -/
theorem exists_forbidden_of_lexemes {cause : Cause} (failed : lexemes text = .error cause)
    (code : cause.code = .forbiddenChar) : ∃ c ∈ text.toList, c ∈ forbidden := by
  by_contra none
  have clean : ∀ c ∈ text.toList, c ∉ forbidden := by simpa using none
  by_cases bare : BareRun text.toList
  · cases (lexemes_of_bareRun clean bare).symm.trans failed
    cases code
  by_cases odd : Odd (text.toList.count '"')
  · cases (lexemes_of_odd clean bare odd).symm.trans failed
    cases code
  · obtain ⟨words, lexed⟩ := exists_lexemes clean bare (Nat.not_odd_iff_even.1 odd)
    cases lexed.symm.trans failed

end Lexeme

/-- Texts are refused for three reasons, of which the first one that holds is reported: forbidden
characters, which are listed in the order of their first appearance, a bare run of equals signs, and
an odd number of quotes. Every other text has lexemes. -/
theorem lexemes_refused_iff (text : String) :
    let cs := text.toList
    let clean := ∀ c ∈ cs, c ∉ Lexeme.forbidden
    let refused (code : ErrorCode) := ∃ cause, lexemes text = .error cause ∧ cause.code = code
    (refused .forbiddenChar ↔ ∃ c ∈ cs, c ∈ Lexeme.forbidden) ∧
    (∃ found : List Char, (∀ c, c ∈ found ↔ c ∈ cs ∧ c ∈ Lexeme.forbidden) ∧
      (found.Pairwise fun c d => cs.idxOf c < cs.idxOf d) ∧
      ((∃ cause, lexemes text = .error cause ∧ cause.code = .forbiddenChar ∧
        cause.token = some (String.ofList found)) ↔ ∃ c ∈ cs, c ∈ Lexeme.forbidden)) ∧
    (refused .bareAssignment ↔ clean ∧ Lexeme.BareRun cs) ∧
    (refused .unterminatedQuote ↔ clean ∧ ¬Lexeme.BareRun cs ∧ Odd (cs.count '"')) ∧
    ((∃ words, lexemes text = .ok words) ↔
      clean ∧ ¬Lexeme.BareRun cs ∧ Even (cs.count '"')) := by
  intro cs clean refused
  refine ⟨⟨?_, ?_⟩, ⟨Lexeme.forbiddenIn cs, fun c => Lexeme.mem_forbiddenIn,
    Lexeme.pairwise_forbiddenIn cs, ?_, ?_⟩, ?_⟩
  · rintro ⟨cause, failed, code⟩
    exact Lexeme.exists_forbidden_of_lexemes failed code
  · intro bad
    exact ⟨_, Lexeme.lexemes_of_forbidden bad, rfl⟩
  · rintro ⟨cause, failed, code, -⟩
    exact Lexeme.exists_forbidden_of_lexemes failed code
  · intro bad
    exact ⟨_, Lexeme.lexemes_of_forbidden bad, rfl, rfl⟩
  -- The other conditions exclude each other, and one of them holds.
  by_cases bad : ∃ c ∈ cs, c ∈ Lexeme.forbidden
  · have unclean : ¬clean := by simpa [clean] using bad
    have known : lexemes text = _ := Lexeme.lexemes_of_forbidden bad
    simp [refused, known, unclean, Cause.code]
  have fine : clean := by simpa [clean] using bad
  by_cases bare : Lexeme.BareRun cs
  · have known : lexemes text = _ := Lexeme.lexemes_of_bareRun fine bare
    simp [refused, known, fine, bare, Cause.code]
  by_cases odd : Odd (cs.count '"')
  · have known : lexemes text = _ := Lexeme.lexemes_of_odd fine bare odd
    simp [refused, known, fine, bare, odd, Cause.code]
  · have even := Nat.not_odd_iff_even.1 odd
    obtain ⟨words, known⟩ := Lexeme.exists_lexemes fine bare even
    simp [refused, known, fine, bare, odd, even]

example : lexemes "（a：b（" = .error (.forbiddenChars ['（', '：']) := rfl

end SkillGraph
