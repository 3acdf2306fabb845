import SkillGraph.Literal
import SkillGraph.Proofs.Lexeme.Names

/-! What words stand for: numerals, keys in braces, names of literals and quoted text. -/
namespace SkillGraph.Literal

theorem unsigned?_of_head {c : Char} (other : c.isDigit = false) (rest : List Char) :
    unsigned? (c :: rest) = none := by
  simp [unsigned?, List.span_eq_takeWhile_dropWhile, other]

theorem head_of_unsigned? {cs : List Char} {x : Float} (read : unsigned? cs = some x) :
    ∃ c rest, cs = c :: rest ∧ c.isDigit = true := by
  cases cs with
  | nil => simp [unsigned?, List.span_eq_takeWhile_dropWhile] at read
  | cons c rest =>
    cases digit : c.isDigit with
    | true => exact ⟨c, rest, rfl, digit⟩
    | false => simp [unsigned?_of_head digit] at read

theorem value_of_unsigned? {w : String} {x : Float} (read : unsigned? w.toList = some x) :
    value w = .node (.literal x) := by
  obtain ⟨c, rest, spelled, digit⟩ := head_of_unsigned? read
  have other (d : Char) (noDigit : d.isDigit = false) : c ≠ d := by
    rintro rfl
    simp [noDigit] at digit
  have noKey : boundKey? w.toList = none := by
    rw [spelled, boundKey?]
    rintro rest' same
    exact other _ (by decide) (List.cons.inj same).1
  have noName : w ≠ "Infinity" := by
    rintro rfl
    exact other 'I' (by decide) (List.cons.inj spelled).1.symm
  have number : number? w.toList = some x := by
    rw [spelled, number?, ← spelled, read]
    · rintro rest' same
      exact other _ (by decide) (List.cons.inj same).1
    · rintro rest' same
      exact other _ (by decide) (List.cons.inj same).1
  rw [value, noKey]
  simp [noName, number]

theorem value_of_head {w : String} {c : Char} {rest : List Char} (spelled : w.toList = c :: rest)
    (other : c ∉ ['\x7b', 'I', '-', '+', 't', 'T', 'f', 'F']) (noDigit : c.isDigit = false) :
    value w = .text (text w) := by
  simp only [List.mem_cons, List.not_mem_nil, or_false, not_or] at other
  obtain ⟨brace, i, minus, plus, t, t', f, f'⟩ := other
  have head {u : String} {d : Char} (first : u.toList.head? = some d) (apart : c ≠ d) : w ≠ u := by
    rintro rfl
    rw [spelled] at first
    exact apart (Option.some.inj first)
  have noNumber : number? (c :: rest) = none := by
    simp [number?, minus, plus, unsigned?_of_head noDigit]
  have noBool : bool? w = none := by
    simp [bool?, head (u := "true") rfl t, head (u := "True") rfl t', head (u := "TRUE") rfl t',
      head (u := "false") rfl f, head (u := "False") rfl f', head (u := "FALSE") rfl f']
  simp [value, spelled, boundKey?, brace, head (u := "Infinity") rfl i, noNumber, noBool]

theorem value_of_isName {w : String} (named : isName w = true) (free : w ∉ reservedWords) :
    value w = .text (text w) := by
  obtain ⟨c, rest, spelled, first, -⟩ := isName_iff.1 named
  have letter : (c.isAlpha || c = '_') = true := by simpa using first
  have noDigit : c.isDigit = false := by
    apply Bool.eq_false_iff.2
    intro digit
    rw [Lexeme.not_isAlpha_of_isDigit digit] at letter
    cases letter
  have other (d : Char) (sign : (d.isAlpha || d = '_') = false) : c ≠ d := by
    rintro rfl
    rw [sign] at letter
    cases letter
  have noNumber : number? (c :: rest) = none := by
    simp [number?, other '-' (by decide), other '+' (by decide), unsigned?_of_head noDigit]
  have noBool : bool? w = none := by
    simp_all [bool?, reservedWords]
  have noInfinity : w ≠ "Infinity" := by
    rintro rfl
    exact free (by decide)
  simp [value, spelled, boundKey?, other '\x7b' (by decide), noInfinity, noNumber, noBool]

theorem cases_value (w : String) : (∃ n, value w = .node n) ∨ ∃ s, value w = .text s := by
  unfold value
  split
  · exact .inl ⟨_, rfl⟩
  split
  · exact .inl ⟨_, rfl⟩
  split
  · exact .inl ⟨_, rfl⟩
  split
  · exact .inl ⟨_, rfl⟩
  · exact .inr ⟨_, rfl⟩

theorem value_quoted {w : String} {s : List Char} (spelled : w.toList = '"' :: (s ++ ['"'])) :
    value w = .text (String.ofList s) := by
  rw [value_of_head spelled (by decide) (by decide), text, spelled]
  simp [unquote?]

theorem mem_of_unquote? {quote c : Char} {cs inner : List Char}
    (quoted : unquote? quote cs = some inner) (member : c ∈ inner) : c ∈ cs := by
  cases cs with
  | nil => cases quoted
  | cons d rest =>
    simp only [unquote?, Option.ite_none_right_eq_some, Option.some.injEq] at quoted
    obtain ⟨-, rfl⟩ := quoted
    exact List.mem_cons_of_mem d (List.dropLast_subset rest member)

theorem mem_of_mem_text {w : String} {c : Char} (member : c ∈ (text w).toList) : c ∈ w.toList := by
  unfold text at member
  split at member
  case h_2 => exact member
  case h_1 inner quoted =>
    rw [String.toList_ofList] at member
    rcases Option.or_eq_some_iff.1 quoted with quoted | ⟨-, quoted⟩
    · exact mem_of_unquote? quoted member
    · exact mem_of_unquote? quoted member

end SkillGraph.Literal
