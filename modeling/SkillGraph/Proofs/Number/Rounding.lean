import SkillGraph.Number.Shortest
import SkillGraph.Proofs.Number.Packing

/-! Rounding to the nearest double. Whatever lies in the rounding interval of a double rounds to
it; this is what makes digits from that interval read back. -/
namespace SkillGraph.Number

open Float.Model Float.Model.UnpackedFloat

/-- The mantissa is what is left of a number without its fraction, and the two further bits compare
the fraction with zero and one half. -/
structure Describes (em : ExtendedMantissa) (y : ℚ) : Prop where
  floor : (em.mantissa : ℚ) ≤ y
  ceil : y < em.mantissa + 1
  round : em.roundBit = true ↔ em.mantissa + 1 / 2 ≤ y
  sticky : em.stickyBit = true ↔ y ≠ em.mantissa ∧ y ≠ em.mantissa + 1 / 2

namespace Describes

variable {em : ExtendedMantissa} {y : ℚ}

theorem exact (m : Nat) : Describes ⟨m, false, false⟩ m := by
  constructor <;> simp

theorem inexact (n : Nat) {f : ℚ} (more : 0 < f) (less : f < 1) {o : Ordering}
    (half : compare f (1 / 2) = o) :
    Describes (.ofMantissaAndAccuracy n (.inexact o)) (n + f) := by
  subst half
  rcases lt_trichotomy f (1 / 2) with low | rfl | high
  · rw [compare_lt_iff_lt.2 low]
    constructor <;> simp [ExtendedMantissa.ofMantissaAndAccuracy] <;> grind
  · rw [compare_eq_iff_eq.2 rfl]
    constructor <;> norm_num [ExtendedMantissa.ofMantissaAndAccuracy]
  · rw [compare_gt_iff_gt.2 high]
    constructor <;> simp [ExtendedMantissa.ofMantissaAndAccuracy] <;> grind

theorem quotient (a : Nat) {b : Nat} (positive : 0 < b) :
    Describes (.ofMantissaAndAccuracy (a / b) (accuracyOfFraction (a % b) b)) (a / b : ℚ) := by
  have whole : (a : ℚ) = b * (a / b : Nat) + (a % b : Nat) := by
    exact_mod_cast (Nat.div_add_mod a b).symm
  have below : (a % b) < b := Nat.mod_lt a positive
  generalize a / b = n at *
  generalize a % b = r at *
  have positive : (0 : ℚ) < b := by exact_mod_cast positive
  have value : (a / b : ℚ) = n + r / b := by
    rw [whole]
    field_simp
  rw [value]
  unfold accuracyOfFraction
  split
  case isTrue zero =>
    subst zero
    simpa [ExtendedMantissa.ofMantissaAndAccuracy] using exact n
  case isFalse some =>
    have more : 0 < (r : ℚ) / b := by
      have : (0 : ℚ) < r := by exact_mod_cast Nat.pos_of_ne_zero some
      positivity
    have less : (r : ℚ) / b < 1 := (div_lt_one positive).2 (by exact_mod_cast below)
    apply inexact n more less
    rcases Nat.lt_trichotomy (2 * r) b with half | half | half
    · rw [Nat.compare_eq_lt.2 half, compare_lt_iff_lt, div_lt_iff₀ positive]
      have : (2 * r : ℚ) < b := by exact_mod_cast half
      linarith
    · rw [Nat.compare_eq_eq.2 half, compare_eq_iff_eq, div_eq_iff positive.ne']
      have : (2 * r : ℚ) = b := by exact_mod_cast half
      linarith
    · rw [Nat.compare_eq_gt.2 half, compare_gt_iff_gt, lt_div_iff₀ positive]
      have : (b : ℚ) < 2 * r := by exact_mod_cast half
      linarith

theorem shiftRightOne (h : Describes em y) : Describes em.shiftRightOne (y / 2) := by
  obtain ⟨floor, ceil, round, sticky⟩ := h
  obtain ⟨m, rb, sb⟩ := em
  dsimp only at floor ceil round sticky
  have whole : (m : ℚ) = 2 * (m / 2 : Nat) + (m % 2 : Nat) := by
    exact_mod_cast (Nat.div_add_mod m 2).symm
  have fraction : (rb || sb) = true ↔ y ≠ m := by
    rw [Bool.or_eq_true, round, sticky]
    grind
  simp only [ExtendedMantissa.shiftRightOne]
  generalize m / 2 = n at *
  rcases Nat.mod_two_eq_zero_or_one m with parity | parity
  all_goals
    rw [parity] at whole
    push_cast at whole
    constructor
  all_goals simp only [parity, fraction]
  all_goals grind

theorem shift (h : Describes em y) (k : Nat) : Describes (em >>> k) (y / 2 ^ k) := by
  induction k with
  | zero => simpa [HShiftRight.hShiftRight, Nat.repeat] using h
  | succ k ih =>
    have next := ih.shiftRightOne
    rw [div_div, ← pow_succ] at next
    exact next

/-- A number within one half of `m`, and strictly so if `m` is odd, rounds to `m`. -/
theorem roundedMantissa (h : Describes em y) {m : Nat} (low : (m : ℚ) - 1 / 2 ≤ y)
    (high : y ≤ m + 1 / 2) (odd : m % 2 = 1 → (m : ℚ) - 1 / 2 < y ∧ y < m + 1 / 2) :
    em.roundedMantissa = m := by
  obtain ⟨floor, ceil, round, sticky⟩ := h
  obtain ⟨n, rb, sb⟩ := em
  dsimp only at floor ceil round sticky
  have lower : n < m + 1 := by
    have : (n : ℚ) < m + 1 := by linarith
    exact_mod_cast this
  have upper : m < n + 2 := by
    have : (m : ℚ) < n + 2 := by linarith
    exact_mod_cast this
  obtain rfl | rfl : m = n ∨ m = n + 1 := by omega
  all_goals
    push_cast at low high odd
    cases rb <;> cases sb
  all_goals simp only [ExtendedMantissa.roundedMantissa, ExtendedMantissa.accuracy,
    Accuracy.roundToNearestEven]
  all_goals grind

end Describes

theorem mul_twoPow (k : Nat) (e : Int) : (2 : ℚ) ^ k * 2 ^ e = 2 ^ (e + k) := by
  rw [zpow_add₀ two_ne_zero, zpow_natCast, mul_comm]

theorem lt_of_twoPow_lt {e f : Int} (less : (2 : ℚ) ^ e < 2 ^ f) : e < f :=
  (zpow_lt_zpow_iff_right₀ (by norm_num)).1 less

/-- The number lies in the rounding interval of the fraction. -/
structure Binary.Covers (b : Binary) (v : ℚ) : Prop where
  low : (b.interval.low : ℚ) * 2 ^ (b.exponent - 2) ≤ v
  high : v ≤ (b.interval.high : ℚ) * 2 ^ (b.exponent - 2)
  odd : b.mantissa % 2 = 1 → (b.interval.low : ℚ) * 2 ^ (b.exponent - 2) < v ∧
    v < (b.interval.high : ℚ) * 2 ^ (b.exponent - 2)

namespace Binary.Covers

variable {b : Binary} {v : ℚ}

theorem four_quarters (e : Int) : (2 : ℚ) ^ e = 4 * 2 ^ (e - 2) := by
  have split := mul_twoPow 2 (e - 2)
  norm_num at split
  exact split.symm

theorem low_le (b : Binary) : 4 * (b.mantissa : ℚ) - 2 ≤ b.interval.low := by
  have : 4 * b.mantissa ≤ b.interval.low + 2 := by
    simp only [interval]
    split <;> omega
  have : (4 * (b.mantissa : ℚ)) ≤ b.interval.low + 2 := by exact_mod_cast this
  linarith

theorem high_eq (b : Binary) : (b.interval.high : ℚ) = 4 * b.mantissa + 2 := by
  simp [interval]

theorem halves_low (h : b.Covers v) : (b.mantissa - 1 / 2 : ℚ) * 2 ^ b.exponent ≤ v := by
  calc (b.mantissa - 1 / 2 : ℚ) * 2 ^ b.exponent
      = (4 * b.mantissa - 2) * 2 ^ (b.exponent - 2) := by rw [four_quarters b.exponent]; ring
    _ ≤ b.interval.low * 2 ^ (b.exponent - 2) := by gcongr; exact low_le b
    _ ≤ v := h.low

theorem halves_high (h : b.Covers v) : v ≤ (b.mantissa + 1 / 2 : ℚ) * 2 ^ b.exponent := by
  apply h.high.trans_eq
  rw [four_quarters b.exponent, high_eq]
  ring

theorem halves_odd (h : b.Covers v) (odd : b.mantissa % 2 = 1) :
    (b.mantissa - 1 / 2 : ℚ) * 2 ^ b.exponent < v ∧
      v < (b.mantissa + 1 / 2 : ℚ) * 2 ^ b.exponent := by
  obtain ⟨low, high⟩ := h.odd odd
  constructor
  · calc (b.mantissa - 1 / 2 : ℚ) * 2 ^ b.exponent
        = (4 * b.mantissa - 2) * 2 ^ (b.exponent - 2) := by rw [four_quarters b.exponent]; ring
      _ ≤ b.interval.low * 2 ^ (b.exponent - 2) := by gcongr; exact low_le b
      _ < v := low
  · apply high.trans_eq
    rw [four_quarters b.exponent, high_eq]
    ring

theorem quarter_low (h : b.Covers v) (power : b.mantissa = 2 ^ 52) (normal : -1074 < b.exponent) :
    (2 ^ 53 - 1 / 2 : ℚ) * 2 ^ (b.exponent - 1) ≤ v := by
  refine le_trans (le_of_eq ?_) h.low
  have low : b.interval.low = 2 ^ 54 - 1 := by
    simp [interval, power, leastExponent, normal, show twoTo 52 = 2 ^ 52 from rfl]
  have half : (2 : ℚ) ^ (b.exponent - 1) = 2 ^ 1 * 2 ^ (b.exponent - 2) := by
    rw [mul_twoPow]
    congr 1
    omega
  rw [low, half]
  norm_num
  ring

end Binary.Covers

/-- The exponent to which a mantissa is shifted, if it has enough bits. -/
def target (m : Nat) (e : Int) : Int := max ((m.log2 : Int) + e - 52) (-1074)

theorem targetExponent_eq (m : Nat) (e : Int) :
    Format.binary64.targetExponent (totalExponent m e) = target m e := by
  simp only [Format.targetExponent, totalExponent, Format.mantissaBits, Format.minExponent, target]
  norm_num
  omega

theorem shiftToTargetExponent_eq (m : Nat) (e : Int) (accuracy : Accuracy) :
    shiftToTargetExponent Format.binary64 m e accuracy =
      (ExtendedMantissa.ofMantissaAndAccuracy m accuracy >>> (target m e - e).toNat,
        e + (target m e - e).toNat) := by
  rw [shiftToTargetExponent, targetExponent_eq]
  rfl

theorem shift_zero (em : ExtendedMantissa) : em >>> 0 = em := rfl

/-- A mantissa of at most 53 bits is left as it is. -/
theorem shiftToTargetExponent_of_lt {m : Nat} {e : Int} (small : m < 2 ^ 53) (low : -1074 ≤ e) :
    shiftToTargetExponent Format.binary64 m e .exact = (⟨m, false, false⟩, e) := by
  have bits : m.log2 ≤ 52 := by
    by_cases zero : m = 0
    · simp [zero]
    · have := (Nat.log2_lt zero).2 small
      omega
  have none : (target m e - e).toNat = 0 := by
    unfold target
    omega
  rw [shiftToTargetExponent_eq, none, shift_zero]
  simp [ExtendedMantissa.ofMantissaAndAccuracy]

/-- A mantissa that was rounded up to 54 bits loses the last one. -/
theorem shiftToTargetExponent_carry {e : Int} (low : -1074 ≤ e) :
    shiftToTargetExponent Format.binary64 (2 ^ 53) e .exact = (⟨2 ^ 52, false, false⟩, e + 1) := by
  have one : (target (2 ^ 53) e - e).toNat = 1 := by
    unfold target
    rw [Nat.log2_two_pow]
    omega
  rw [shiftToTargetExponent_eq, one]
  simp [ExtendedMantissa.ofMantissaAndAccuracy, ExtendedMantissa.shiftRightOne,
    HShiftRight.hShiftRight, Nat.repeat]

/-- A number with enough bits lies below the power of two that the target leaves room for, and above
the one before it unless the target is the least exponent. -/
theorem value_bounds {m : Nat} {e : Int} {y : ℚ} (floor : (m : ℚ) ≤ y) (ceil : y < m + 1)
    (enough : 52 ≤ m.log2 ∨ e ≤ -1074) :
    y * 2 ^ e < 2 ^ (target m e + 53) ∧
      (-1074 < target m e → 2 ^ (target m e + 52) ≤ y * 2 ^ e) := by
  have scale : (0 : ℚ) < 2 ^ e := by positivity
  constructor
  · have above : y < 2 ^ (m.log2 + 1) := by
      have : ((m + 1 : Nat) : ℚ) ≤ (2 ^ (m.log2 + 1) : Nat) := by exact_mod_cast Nat.lt_log2_self
      push_cast at this
      linarith
    calc y * 2 ^ e < 2 ^ (m.log2 + 1) * 2 ^ e := by gcongr
      _ = 2 ^ (e + (m.log2 + 1 : Nat)) := mul_twoPow ..
      _ ≤ 2 ^ (target m e + 53) := by
        apply zpow_le_zpow_right₀ (by norm_num)
        unfold target
        push_cast
        omega
  · intro more
    have some : m ≠ 0 := by
      rintro rfl
      unfold target at more
      simp at more enough
      omega
    have below : (2 : ℚ) ^ m.log2 ≤ y := by
      have : ((2 ^ m.log2 : Nat) : ℚ) ≤ m := by exact_mod_cast Nat.log2_self_le some
      push_cast at this
      linarith
    have exponent : target m e + 52 = e + m.log2 := by
      unfold target at more ⊢
      omega
    calc (2 : ℚ) ^ (target m e + 52) = 2 ^ m.log2 * 2 ^ e := by rw [exponent, mul_twoPow]
      _ ≤ y * 2 ^ e := by gcongr

/-- A number that rounds to a fraction is not shifted beyond its exponent. -/
theorem target_le {b : Binary} (canonical : b.Canonical) {m : Nat} {e : Int} {v : ℚ}
    (below : -1074 < target m e → 2 ^ (target m e + 52) ≤ v) (covers : b.Covers v) :
    target m e ≤ b.exponent := by
  by_contra more
  have low := canonical.low
  have small : (b.mantissa : ℚ) + 1 ≤ 2 ^ 53 := by exact_mod_cast canonical.small
  have : (2 : ℚ) ^ (target m e + 52) < 2 ^ (b.exponent + 53) :=
    calc (2 : ℚ) ^ (target m e + 52) ≤ v := below (by omega)
      _ ≤ (b.mantissa + 1 / 2) * 2 ^ b.exponent := covers.halves_high
      _ < 2 ^ 53 * 2 ^ b.exponent := by
        gcongr
        linarith
      _ = 2 ^ (b.exponent + 53) := mul_twoPow 53 b.exponent
  have := lt_of_twoPow_lt this
  omega

/-- Where it is shifted to a lower exponent, the number lies just below a power of two. -/
theorem power_of_target_lt {b : Binary} (canonical : b.Canonical) {m : Nat} {e : Int} {v : ℚ}
    (above : v < 2 ^ (target m e + 53)) (covers : b.Covers v) (less : target m e < b.exponent) :
    b.mantissa = 2 ^ 52 ∧ target m e = b.exponent - 1 := by
  have normal : -1074 < b.exponent := lt_of_le_of_lt (le_max_right _ _) less
  have least : 2 ^ 52 ≤ b.mantissa := canonical.full.resolve_right (by omega)
  have upper : v < 2 ^ 52 * 2 ^ b.exponent :=
    calc v < 2 ^ (target m e + 53) := above
      _ ≤ 2 ^ (b.exponent + 52) := zpow_le_zpow_right₀ (by norm_num) (by omega)
      _ = 2 ^ 52 * 2 ^ b.exponent := (mul_twoPow 52 b.exponent).symm
  have power : b.mantissa = 2 ^ 52 := by
    have : (b.mantissa : ℚ) - 1 / 2 < 2 ^ 52 :=
      lt_of_mul_lt_mul_right (covers.halves_low.trans_lt upper) (by positivity)
    have : (b.mantissa : ℚ) < (2 ^ 52 + 1 : Nat) := by
      push_cast
      linarith
    have : b.mantissa < 2 ^ 52 + 1 := by exact_mod_cast this
    omega
  refine ⟨power, ?_⟩
  have : (2 : ℚ) ^ (b.exponent - 1 + 52) < 2 ^ (target m e + 53) :=
    calc (2 : ℚ) ^ (b.exponent - 1 + 52) = 2 ^ 52 * 2 ^ (b.exponent - 1) :=
          (mul_twoPow 52 (b.exponent - 1)).symm
      _ ≤ (2 ^ 53 - 1 / 2) * 2 ^ (b.exponent - 1) := by
          gcongr
          norm_num
      _ ≤ v := covers.quarter_low power normal
      _ < 2 ^ (target m e + 53) := above
  have := lt_of_twoPow_lt this
  omega

/-- The first rounding of a number in the interval: to the mantissa itself, or from just below a
power of two to that power at the next lower exponent. -/
theorem rounded_of_covers {b : Binary} (canonical : b.Canonical) {m : Nat} {e : Int}
    {accuracy : Accuracy} {y : ℚ} (described : Describes (.ofMantissaAndAccuracy m accuracy) y)
    (floor : (m : ℚ) ≤ y) (ceil : y < m + 1)
    (enough : 52 ≤ m.log2 ∨ e ≤ -1074) (covers : b.Covers (y * 2 ^ e)) :
    let rounded := (ExtendedMantissa.ofMantissaAndAccuracy m accuracy >>>
      (target m e - e).toNat).roundedMantissa
    (target m e = b.exponent ∧ rounded = b.mantissa) ∨
      (target m e = b.exponent - 1 ∧ b.mantissa = 2 ^ 52 ∧ rounded = 2 ^ 53) := by
  intro rounded
  obtain ⟨above, below⟩ := value_bounds floor ceil enough
  have described := described.shift (target m e - e).toNat
  have scaled : y / 2 ^ (target m e - e).toNat = y * 2 ^ e / 2 ^ target m e := by
    have shifted : (2 : ℚ) ^ (target m e - e).toNat * 2 ^ e = 2 ^ target m e := by
      rw [mul_twoPow]
      congr 1
      unfold target
      omega
    rw [← shifted]
    field_simp
  rw [scaled] at described
  rcases eq_or_lt_of_le (target_le canonical below covers) with same | less
  · left
    refine ⟨same, described.roundedMantissa ?_ ?_ ?_⟩
    · rw [same, le_div_iff₀ (by positivity)]
      exact covers.halves_low
    · rw [same, div_le_iff₀ (by positivity)]
      exact covers.halves_high
    · intro odd
      rw [same, lt_div_iff₀ (by positivity), div_lt_iff₀ (by positivity)]
      exact covers.halves_odd odd
  · right
    obtain ⟨power, next⟩ := power_of_target_lt canonical above covers less
    have normal : -1074 < b.exponent := lt_of_le_of_lt (le_max_right _ _) less
    have full : y * 2 ^ e / 2 ^ target m e < 2 ^ 53 := by
      rw [div_lt_iff₀ (by positivity), mul_twoPow]
      exact above
    refine ⟨next, power, described.roundedMantissa ?_ ?_ ?_⟩
    · rw [next, le_div_iff₀ (by positivity)]
      exact_mod_cast covers.quarter_low power normal
    · push_cast
      linarith
    · intro odd
      exact absurd odd (by decide)

/-- Whatever lies in the rounding interval of a fraction rounds to it. -/
theorem roundWithAccuracy_of_covers {b : Binary} (canonical : b.Canonical) (some : 0 < b.mantissa)
    (s : Sign) {m : Nat} {e : Int} {accuracy : Accuracy} {y : ℚ}
    (described : Describes (.ofMantissaAndAccuracy m accuracy) y)
    (enough : 52 ≤ m.log2 ∨ e ≤ -1074) (covers : b.Covers (y * 2 ^ e)) :
    roundWithAccuracy Format.binary64 s m e accuracy = .finite s b.mantissa b.exponent some := by
  have mantissa : (ExtendedMantissa.ofMantissaAndAccuracy m accuracy).mantissa = m := by
    cases accuracy with
    | exact => rfl
    | inexact o => cases o <;> rfl
  have floor := described.floor
  have ceil := described.ceil
  rw [mantissa] at floor ceil
  have shifted : e + ((target m e - e).toNat : Int) = target m e := by
    unfold target
    omega
  rw [roundWithAccuracy, shiftToTargetExponent_eq]
  dsimp only
  rw [shifted]
  rcases rounded_of_covers canonical described floor ceil enough covers with
    ⟨exponent, rounded⟩ | ⟨exponent, power, rounded⟩
  · rw [rounded, exponent, shiftToTargetExponent_of_lt canonical.small canonical.low,
      dif_neg some.ne']
  · have low : -1074 ≤ b.exponent - 1 := by
      rw [← exponent]
      unfold target
      omega
    rw [rounded, exponent, shiftToTargetExponent_carry low]
    simp [power]

end SkillGraph.Number
