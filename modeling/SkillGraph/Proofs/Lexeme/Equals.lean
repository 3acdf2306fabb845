import SkillGraph.Lexeme

/-! Equals signs that belong to comparisons. `bareEquals` pairs the signs up from the left; here the
same condition is said about maximal runs of them. -/
namespace SkillGraph.Lexeme

/-- A run of equals signs that lexes as comparisons, where `before` stands in front of it. -/
def Pairs (before : Option Char) (run : Nat) : Prop :=
  run % 2 = 0 ∨ run = 1 ∧ (before = some '!' ∨ before = some '<' ∨ before = some '>')

instance (before : Option Char) (run : Nat) : Decidable (Pairs before run) :=
  inferInstanceAs (Decidable (_ ∨ _))

/-- Every maximal run of equals signs in the text has an even length or is a single sign directly
behind `!`, `<` or `>`. -/
def Compares (before : Option Char) (cs : List Char) : Prop :=
  ∀ front run back, cs = front ++ List.replicate run '=' ++ back → 0 < run →
    front.getLast? ≠ some '=' → back.head? ≠ some '=' → Pairs (front.getLast?.or before) run

variable {before : Option Char} {c : Char}

theorem bareEquals_cons (before : Option Char) (apart : c ≠ '=') (rest : List Char) :
    bareEquals before (c :: rest) = bareEquals (some c) rest := by
  rw [bareEquals]
  · exact fun _ h => absurd h apart
  · exact apart

theorem append_cons_ne_equals {front : List Char} (apart : c ≠ '=')
    (single : ∀ tail, front ≠ '=' :: tail) (rest tail : List Char) :
    front ++ c :: rest ≠ '=' :: tail := by
  intro same
  cases front with
  | nil => exact apart (List.cons.inj same).1
  | cons d more => exact single more (by rw [(List.cons.inj same).1])

/-- What stands behind another character is judged on its own. -/
theorem bareEquals_append_cons (before : Option Char) (front : List Char) (apart : c ≠ '=')
    (rest : List Char) :
    bareEquals before (front ++ c :: rest) =
      (bareEquals before front || bareEquals (some c) rest) := by
  fun_induction bareEquals before front with
  | case1 => exact bareEquals_cons _ apart rest
  | case2 before front ih => simpa [bareEquals] using ih
  | case3 before front single signed ih =>
    rw [List.cons_append, bareEquals, if_pos signed, ih]
    exact append_cons_ne_equals apart single rest
  | case4 before front single signed =>
    rw [List.cons_append, bareEquals, if_neg signed]
    · rfl
    · exact append_cons_ne_equals apart single rest
  | case5 before d front _ other ih =>
    rw [List.cons_append, bareEquals_cons _ other, ih]

theorem bareEquals_replicate (before : Option Char) (run : Nat) :
    bareEquals before (List.replicate run '=') = !decide (Pairs before run) := by
  induction run using Nat.strongRecOn generalizing before with
  | ind run ih =>
    match run with
    | 0 => simp [bareEquals, Pairs]
    | 1 =>
      by_cases signed : before = some '!' ∨ before = some '<' ∨ before = some '>'
      · have signed' : (before = some '!' ∨ before = some '<') ∨ before = some '>' := by
          rwa [or_assoc]
        simp [bareEquals, Pairs, List.replicate_succ, signed, signed']
      · have signed' : ¬((before = some '!' ∨ before = some '<') ∨ before = some '>') := by
          rwa [or_assoc]
        simp [bareEquals, Pairs, List.replicate_succ, signed, signed']
    | run + 2 =>
      have paired : bareEquals before (List.replicate (run + 2) '=') =
          bareEquals (some '=') (List.replicate run '=') := by
        simp [List.replicate_succ, bareEquals]
      rw [paired, ih run (by omega)]
      simp [Pairs]

theorem bareEquals_append (before : Option Char) (front : List Char) {back : List Char}
    (apart : back.head? ≠ some '=') :
    bareEquals before (front ++ back) = (bareEquals before front || bareEquals none back) := by
  cases back with
  | nil => simp [bareEquals]
  | cons c rest =>
    have apart : c ≠ '=' := by simpa using apart
    rw [bareEquals_append_cons _ _ apart, bareEquals_cons none apart]

theorem compares_of_bareEquals {cs : List Char} (paired : bareEquals before cs = false) :
    Compares before cs := by
  rintro front run back rfl - ended begun
  rw [List.append_assoc] at paired
  have inside :
      bareEquals (front.getLast?.or before) (List.replicate run '=' ++ back) = false := by
    rcases List.eq_nil_or_concat front with rfl | ⟨front, c, rfl⟩
    · simpa using paired
    · have apart : c ≠ '=' := by simpa using ended
      have split : bareEquals before front = false ∧
          bareEquals (some c) (List.replicate run '=' ++ back) = false := by
        simpa [bareEquals_append_cons _ _ apart] using paired
      simpa using split.2
  rw [bareEquals_append _ _ begun, bareEquals_replicate, Bool.or_eq_false_iff] at inside
  simpa using inside.1

/-- The maximal run at the beginning of a text may be empty. -/
theorem exists_leading_run (cs : List Char) :
    ∃ run back, cs = List.replicate run '=' ++ back ∧ back.head? ≠ some '=' := by
  have signs : ∀ d ∈ cs.takeWhile (· = '='), d = '=' := fun d member => by
    simpa using List.all_eq_true.1 List.all_takeWhile d member
  refine ⟨(cs.takeWhile (· = '=')).length, cs.dropWhile (· = '='), ?_, ?_⟩
  · rw [← List.eq_replicate_of_mem signs, List.takeWhile_append_dropWhile]
  · intro same
    have ended := List.head?_dropWhile_not (· = '=') cs
    simp [same] at ended

namespace Compares

variable {run : Nat} {back rest : List Char}

theorem leading (compares : Compares before (List.replicate run '=' ++ back))
    (begun : back.head? ≠ some '=') : Pairs before run := by
  cases run with
  | zero => exact .inl rfl
  | succ run => exact compares [] _ back rfl (Nat.succ_pos run) (by simp) begun

/-- The runs behind the first one are runs of what stands behind it. -/
theorem behind (compares : Compares before (List.replicate run '=' ++ c :: rest))
    (apart : c ≠ '=') : Compares (some c) rest := by
  rintro front run' back rfl positive ended begun
  have last : (List.replicate run '=' ++ c :: front).getLast? = front.getLast?.or (some c) := by
    rw [List.getLast?_append, List.getLast?_cons, Option.some_or, Option.or_some]
  have unlike : (List.replicate run '=' ++ c :: front).getLast? ≠ some '=' := by
    rw [last]
    cases ended' : front.getLast? with
    | none => simpa using apart
    | some d => simpa [ended'] using ended
  have pairs := compares (List.replicate run '=' ++ c :: front) run' back (by simp) positive
    unlike begun
  rw [last] at pairs
  simpa [Option.or_assoc] using pairs

end Compares

/-- The runs are taken away from the front one by one. -/
theorem bareEquals_of_compares {cs : List Char} (compares : Compares before cs) :
    bareEquals before cs = false := by
  induction n : cs.length using Nat.strongRecOn generalizing before cs with
  | ind n ih =>
    subst n
    obtain ⟨run, back, rfl, begun⟩ := exists_leading_run cs
    have first := compares.leading begun
    rw [bareEquals_append _ _ begun, bareEquals_replicate]
    cases back with
    | nil => simpa [bareEquals] using first
    | cons c rest =>
      have apart : c ≠ '=' := by simpa using begun
      have later := ih rest.length (by simp; omega) (compares.behind apart) rfl
      simpa [bareEquals_cons none apart, later] using first

/-- No sign is bare exactly if every maximal run of them pairs up. -/
theorem bareEquals_eq_false_iff (before : Option Char) (cs : List Char) :
    bareEquals before cs = false ↔ Compares before cs :=
  ⟨compares_of_bareEquals, bareEquals_of_compares⟩

end SkillGraph.Lexeme
