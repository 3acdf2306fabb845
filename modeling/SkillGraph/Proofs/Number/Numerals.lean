import SkillGraph.Literal
import SkillGraph.Proofs.Number.Digits

/-! The numerals of doubles. A double without a sign is written as a numeral without an exponent,
and the numeral reads back as the double. -/
namespace SkillGraph.Number

theorem ofDigits_digits (n : Nat) : ofDigits (digits n) = n := Nat.ofDigitChars_ten_toDigits

theorem ofDigits_append (ds es : List Char) :
    ofDigits (ds ++ es) = Nat.ofDigitChars 10 es (ofDigits ds) := List.foldl_append

theorem ofDigits_zeros (k : Nat) (ds : List Char) :
    ofDigits (List.replicate k '0' ++ ds) = ofDigits ds := by
  have zero : ofDigits (List.replicate k '0') = 0 := Nat.ofDigitChars_replicate_zero.trans (by simp)
  rw [ofDigits_append, zero]
  rfl

theorem isDigit_digits (n : Nat) : ∀ c ∈ digits n, c.isDigit = true :=
  fun _ => Nat.isDigit_of_mem_toDigits (by decide) (by decide)

theorem digits_bounds {n : Nat} (some : 0 < n) :
    (10 : ℚ) ^ (((digits n).length : Int) - 1) ≤ n ∧ (n : ℚ) < 10 ^ ((digits n).length : Int) := by
  have length : 0 < (digits n).length := Nat.length_toDigits_pos
  constructor
  · have : 10 ^ ((digits n).length - 1) ≤ n := by
      by_contra short
      have long : 0 < (digits n).length - 1 := by
        by_contra one
        rw [show (digits n).length - 1 = 0 by omega] at short
        omega
      have := (Nat.length_toDigits_le_iff (by decide) long).2 (Nat.lt_of_not_le short)
      change (digits n).length ≤ _ at this
      omega
    rw [show ((digits n).length : Int) - 1 = ((digits n).length - 1 : Nat) by omega, zpow_natCast]
    exact_mod_cast this
  · rw [zpow_natCast]
    exact_mod_cast (Nat.length_toDigits_le_iff (by decide) length).1 (Nat.le_refl _)

theorem twoPow_le_tenPow : (2 : ℚ) ^ 1075 ≤ 10 ^ 400 := by
  have : 2 ^ 1075 ≤ 10 ^ 400 := by decide +kernel
  exact_mod_cast this

/-- A decimal that rounds to a double is in the range that is not settled first. -/
theorem leading_range {b : Binary} (positive : b.Positive) {n : Nat} {k : Int} (some : 0 < n)
    (covers : b.Covers (n * 10 ^ k)) :
    -400 ≤ ((digits n).length : Int) + k ∧ ((digits n).length : Int) + k ≤ 400 := by
  obtain ⟨least, most⟩ := covers.range positive
  obtain ⟨low, high⟩ := digits_bounds some
  have ten : (1 : ℚ) < 10 := by norm_num
  constructor
  · have : (10 : ℚ) ^ (-400 : Int) < 10 ^ (((digits n).length : Int) + k) :=
      calc (10 : ℚ) ^ (-400 : Int) ≤ 2 ^ (-1075 : Int) := by
            rw [zpow_neg, zpow_neg]
            exact inv_anti₀ (by positivity) twoPow_le_tenPow
        _ ≤ n * 10 ^ k := least
        _ < 10 ^ ((digits n).length : Int) * 10 ^ k := by gcongr
        _ = 10 ^ (((digits n).length : Int) + k) := by rw [zpow_add₀ (by norm_num)]
    exact ((zpow_lt_zpow_iff_right₀ ten).1 this).le
  · have : (10 : ℚ) ^ (((digits n).length : Int) - 1 + k) < 10 ^ (400 : Int) :=
      calc (10 : ℚ) ^ (((digits n).length : Int) - 1 + k)
          = 10 ^ (((digits n).length : Int) - 1) * 10 ^ k := by rw [zpow_add₀ (by norm_num)]
        _ ≤ n * 10 ^ k := by gcongr
        _ < 2 ^ (1024 : Int) := most
        _ ≤ 2 ^ (1075 : Int) := zpow_le_zpow_right₀ (by norm_num) (by decide)
        _ ≤ 10 ^ (400 : Int) := twoPow_le_tenPow
    have := (zpow_lt_zpow_iff_right₀ ten).1 this
    omega

/-- A decimal from the rounding interval of a double reads back as the double. -/
theorem ofDecimal_of_covers {b : Binary} (positive : b.Positive) {whole fraction : List Char}
    (some : 0 < ofDigits (whole ++ fraction))
    (covers : b.Covers (ofDigits (whole ++ fraction) * 10 ^ (-(fraction.length : Int)))) :
    ofDecimal whole fraction 0 = b.packed := by
  obtain ⟨low, high⟩ := leading_range positive some covers
  unfold ofDecimal
  dsimp only
  rw [Int.zero_sub, if_neg, if_neg (by omega)]
  · exact ofScientific_of_covers positive some covers
  · simp only [Bool.or_eq_true, decide_eq_true_eq, not_or]
    omega

/-- What is read is never NaN and has no sign. -/
theorem isUnsigned_ofDecimal (whole fraction : List Char) (k : Int) :
    isUnsigned (ofDecimal whole fraction k) = true := by
  unfold ofDecimal
  dsimp only
  split
  case isTrue => exact isUnsigned_zero
  case isFalse large =>
    simp only [Bool.or_eq_true, decide_eq_true_eq, not_or] at large
    split
    · exact isUnsigned_infinity
    · exact isUnsigned_ofScientific (Nat.pos_of_ne_zero large.1) ..

theorem isUnsigned_of_unsigned? {cs : List Char} {x : Float}
    (read : Literal.unsigned? cs = some x) : isUnsigned x = true := by
  unfold Literal.unsigned? at read
  split at read
  · cases read
  · exact Option.some.inj read ▸ isUnsigned_ofDecimal ..
  · split at read
    · exact Option.some.inj read ▸ isUnsigned_ofDecimal ..
    · cases read
  · cases read

def numeral (whole fraction : List Char) : List Char :=
  whole ++ if fraction.isEmpty then [] else '.' :: fraction

theorem unsigned?_numeral {whole fraction : List Char} (nonempty : whole ≠ [])
    (digits : ∀ c ∈ whole ++ fraction, c.isDigit = true) :
    Literal.unsigned? (numeral whole fraction) = some (ofDecimal whole fraction 0) := by
  have whole' : ∀ c ∈ whole, c.isDigit = true := fun c h => digits c (List.mem_append_left _ h)
  have fraction' : fraction.all Char.isDigit = true :=
    List.all_eq_true.2 fun c h => digits c (List.mem_append_right _ h)
  have parts : (numeral whole fraction).span Char.isDigit =
      (whole, if fraction.isEmpty then [] else '.' :: fraction) := by
    rw [List.span_eq_takeWhile_dropWhile, numeral, List.takeWhile_append_of_pos whole',
      List.dropWhile_append_of_pos whole']
    split <;> simp
  obtain ⟨c, rest, rfl⟩ := List.exists_cons_of_ne_nil nonempty
  unfold Literal.unsigned?
  rw [parts]
  cases fraction with
  | nil => rfl
  | cons d ds => simpa using fraction'

/-- The digits of a decimal with a point in their midst or beside them. -/
theorem positionalDigits_eq (d : Decimal) : ∃ whole fraction,
    positionalDigits d false = numeral whole fraction ∧ whole ≠ [] ∧
      (∀ c ∈ whole ++ fraction, c.isDigit = true) ∧
      (ofDigits (whole ++ fraction) * 10 ^ (-(fraction.length : Int)) : ℚ) =
        d.digits * 10 ^ d.exponent := by
  have value := ofDigits_digits d.digits
  have isDigit := isDigit_digits d.digits
  have nonempty : digits d.digits ≠ [] := List.ne_nil_of_length_pos Nat.length_toDigits_pos
  have zero (k : Nat) : ∀ c ∈ List.replicate k '0', c.isDigit = true :=
    fun c h => (List.mem_replicate.1 h).2 ▸ rfl
  unfold positionalDigits
  dsimp only
  generalize digits d.digits = ds at *
  split
  case isTrue nonnegative =>
    refine ⟨ds ++ List.replicate d.exponent.toNat '0', [], by simp [numeral], by simp [nonempty],
      ?_, ?_⟩
    · simpa [or_imp, forall_and] using isDigit
    · have power : ((10 ^ d.exponent.toNat : Nat) : ℚ) = 10 ^ d.exponent := by
        push_cast
        rw [← zpow_natCast, Int.toNat_of_nonneg nonnegative]
      rw [List.append_nil, ofDigits_append, Nat.ofDigitChars_replicate_zero, value, ← power]
      push_cast
      simp [mul_comm]
  split
  case isTrue negative before =>
    have inside : (ds.length + d.exponent).toNat < ds.length := by omega
    refine ⟨ds.take (ds.length + d.exponent).toNat, ds.drop (ds.length + d.exponent).toNat,
      ?_, ?_, ?_, ?_⟩
    · rw [numeral, if_neg]
      simpa using inside
    · rw [Ne, List.take_eq_nil_iff]
      simp [nonempty]
      omega
    · rwa [List.take_append_drop]
    · rw [List.take_append_drop, value, List.length_drop]
      congr 2
      omega
  case isFalse negative behind =>
    refine ⟨['0'], List.replicate (-(ds.length + d.exponent)).toNat '0' ++ ds, ?_, by simp, ?_, ?_⟩
    · rw [numeral, if_neg (by simp [nonempty])]
      simp
    · simp only [List.mem_append]
      rintro c (h | h | h)
      · exact zero 1 c h
      · exact zero _ c h
      · exact isDigit c h
    · rw [← List.append_assoc, show ['0'] = List.replicate 1 '0' from rfl,
        ← List.replicate_add, ofDigits_zeros, value, List.length_append, List.length_replicate]
      congr 2
      omega

/-- The spelling of a double without a sign is read as that double. -/
theorem unsigned?_magnitude {b : Binary} (canonical : b.Canonical) (sign : b.negative = false) :
    Literal.unsigned? (numeralStyle.magnitude b) = some b.packed ∧
      ∀ c ∈ numeralStyle.magnitude b, c.isDigit = true ∨ c = '.' := by
  by_cases zero : b.mantissa = 0
  · obtain ⟨negative, mantissa, exponent⟩ := b
    obtain rfl : mantissa = 0 := zero
    obtain rfl : negative = false := sign
    obtain rfl : exponent = -1074 := canonical.full.resolve_left (show ¬2 ^ 52 ≤ 0 by decide)
    have written : numeralStyle.magnitude ⟨false, 0, -1074⟩ = ['0'] := rfl
    rw [written]
    exact ⟨by decide, by simp⟩
  · have positive : b.Positive := ⟨canonical, Nat.pos_of_ne_zero zero, sign⟩
    obtain ⟨some, covers⟩ := Binary.covers_shortest positive .up
    obtain ⟨whole, fraction, written, nonempty, digits, value⟩ :=
      positionalDigits_eq (b.shortest .up)
    have same : numeralStyle.magnitude b = numeral whole fraction := by
      rw [Style.magnitude, if_neg zero, ← written]
      rfl
    have more : 0 < ofDigits (whole ++ fraction) := by
      have : (0 : ℚ) < ofDigits (whole ++ fraction) * 10 ^ (-(fraction.length : Int)) := by
        rw [value]
        positivity
      exact_mod_cast pos_of_mul_pos_left this (by positivity)
    rw [same, unsigned?_numeral nonempty digits, ofDecimal_of_covers positive more (value ▸ covers)]
    refine ⟨rfl, ?_⟩
    intro c member
    rcases List.mem_append.1 member with first | second
    · exact .inl (digits c (List.mem_append_left _ first))
    · split at second
      · cases second
      · rcases List.mem_cons.1 second with rfl | later
        · exact .inr rfl
        · exact .inl (digits c (List.mem_append_right _ later))

theorem unsigned?_spellNumber {x : Float} (unsigned : isUnsigned x = true) :
    spellNumber x = "Infinity" ∧ x = infinity ∨
      Literal.unsigned? (spellNumber x).toList = some x ∧
        ∀ c ∈ (spellNumber x).toList, c.isDigit = true ∨ c = '.' := by
  rcases cases_of_float x with special | ⟨b, canonical, rfl⟩
  · obtain rfl := (of_mem_specials x special).2.2.2 unsigned
    exact .inl ⟨by decide, rfl⟩
  · right
    have sign : b.negative = false := by
      simpa [Binary.isUnsigned_packed canonical] using unsigned
    have same : (spellNumber b.packed).toList = numeralStyle.magnitude b := by
      rw [spellNumber_packed canonical, Style.write, sign]
      simp
    rw [same]
    exact unsigned?_magnitude canonical sign

end SkillGraph.Number
