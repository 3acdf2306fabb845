import SkillGraph.Proofs.Number.Rounding
import SkillGraph.Proofs.Number.Sign

/-! The double nearest to a decimal. Whether the digits and the power of ten are multiplied as
doubles or as integers, the result is the double whose rounding interval the decimal lies in. -/
namespace SkillGraph.Number

open Float.Model Float.Model.UnpackedFloat

/-- A quotient has all its bits if its dividend was shifted far enough. -/
theorem log2_quotient {m n k : Nat} (left : 0 < m) (right : 0 < n)
    (shift : n.log2 + 53 ≤ m.log2 + k) : 52 ≤ (m <<< k / n).log2 := by
  have full : n * 2 ^ 52 ≤ m * 2 ^ k :=
    calc n * 2 ^ 52 ≤ 2 ^ (n.log2 + 1) * 2 ^ 52 := Nat.mul_le_mul_right _ Nat.lt_log2_self.le
      _ = 2 ^ (n.log2 + 53) := by rw [← Nat.pow_add]
      _ ≤ 2 ^ (m.log2 + k) := Nat.pow_le_pow_right (by decide) shift
      _ = 2 ^ m.log2 * 2 ^ k := Nat.pow_add ..
      _ ≤ m * 2 ^ k := Nat.mul_le_mul_right _ (Nat.log2_self_le left.ne')
  have quotient : 2 ^ 52 ≤ m <<< k / n := by
    rw [Nat.shiftLeft_eq, Nat.le_div_iff_mul_le right, Nat.mul_comm]
    exact full
  rw [Nat.le_log2 (by omega)]
  exact quotient

section

variable {b : Binary} (canonical : b.Canonical) (some : 0 < b.mantissa) {m n : Nat} {e f : Int}
  (s t : Sign) (left : 0 < m) (right : 0 < n)

include canonical

theorem mul_of_covers (enough : 52 ≤ (m * n).log2 ∨ e + f ≤ -1074)
    (covers : b.Covers ((m * 2 ^ e) * (n * 2 ^ f))) :
    UnpackedFloat.mul Format.binary64 (.finite s m e left) (.finite t n f right) =
      .finite (s * t) b.mantissa b.exponent some := by
  refine roundWithAccuracy_of_covers canonical some _ (Describes.exact (m * n)) enough ?_
  rw [zpow_add₀ two_ne_zero]
  push_cast
  convert covers using 1
  ring

theorem div_of_covers (covers : b.Covers ((m * 2 ^ e) / (n * 2 ^ f))) :
    UnpackedFloat.div Format.binary64 (.finite s m e left) (.finite t n f right) =
      .finite (s / t) b.mantissa b.exponent some := by
  unfold UnpackedFloat.div divCore
  dsimp only
  generalize room : Format.binary64.targetExponent (totalExponent m e - totalExponent n f) = aim
  have below : min (e - f) aim ≤ e - f := min_le_left _ _
  have within : min (e - f) aim ≤ aim := min_le_right _ _
  generalize min (e - f) aim = g at *
  obtain ⟨k, difference⟩ : ∃ k : Nat, e - f = g + k := ⟨(e - f - g).toNat, by omega⟩
  obtain rfl : (e - f - g).toNat = k := by omega
  generalize (e - f - g).toNat = k at *
  refine roundWithAccuracy_of_covers canonical some _ (Describes.quotient (m <<< k) right) ?_ ?_
  · by_cases least : aim = -1074
    · right
      omega
    · left
      apply log2_quotient left right
      simp only [Format.targetExponent, totalExponent, Format.mantissaBits,
        Format.minExponent] at room
      norm_num at room
      omega
  · have scale : (2 : ℚ) ^ e = 2 ^ f * (2 ^ g * 2 ^ k) := by
      rw [← zpow_natCast, ← zpow_add₀ two_ne_zero, ← zpow_add₀ two_ne_zero]
      congr 1
      omega
    rw [scale] at covers
    rw [Nat.shiftLeft_eq]
    push_cast
    convert covers using 1
    have : (n : ℚ) ≠ 0 := by exact_mod_cast right.ne'
    field_simp

end

def Binary.size (b : Binary) : ℚ := b.mantissa * 2 ^ b.exponent

structure Binary.Positive (b : Binary) : Prop extends b.Canonical where
  some : 0 < b.mantissa
  sign : b.negative = false

/-- Shifting all 53 bits into place. -/
def Binary.ofSmall (n : Nat) : Binary := ⟨false, n * 2 ^ (52 - n.log2), (n.log2 : Int) - 52⟩

namespace Binary

variable {n : Nat}

theorem log2_ofSmall (some : 0 < n) (small : n < 2 ^ 53) : (n * 2 ^ (52 - n.log2)).log2 = 52 := by
  have short : n.log2 < 53 := (Nat.log2_lt some.ne').2 small
  have bits : 2 ^ n.log2 * 2 ^ (52 - n.log2) = 2 ^ 52 := by
    rw [← Nat.pow_add]
    congr 1
    omega
  have low := Nat.mul_le_mul_right (2 ^ (52 - n.log2)) (Nat.log2_self_le some.ne')
  have high := Nat.mul_lt_mul_of_pos_right (Nat.lt_log2_self (n := n))
    (Nat.two_pow_pos (52 - n.log2))
  rw [Nat.pow_succ, Nat.mul_right_comm, bits] at high
  rw [bits] at low
  exact (Nat.log2_eq_iff (by positivity)).2 ⟨low, high⟩

theorem full_ofSmall (some : 0 < n) (small : n < 2 ^ 53) :
    2 ^ 52 ≤ (ofSmall n).mantissa ∧ (ofSmall n).mantissa < 2 ^ 53 :=
  (Nat.log2_eq_iff (Nat.mul_pos some (Nat.two_pow_pos _)).ne').1 (log2_ofSmall some small)

theorem positive_ofSmall (some : 0 < n) (small : n < 2 ^ 53) : (ofSmall n).Positive := by
  obtain ⟨least, most⟩ := full_ofSmall some small
  have short : n.log2 < 53 := (Nat.log2_lt some.ne').2 small
  refine ⟨⟨most, ?_, ?_, .inl least⟩, Nat.lt_of_lt_of_le (by decide) least, rfl⟩
  · change -1074 ≤ (n.log2 : Int) - 52
    omega
  · change (n.log2 : Int) - 52 ≤ 971
    omega

theorem size_ofSmall (small : n < 2 ^ 53) : (ofSmall n).size = n := by
  by_cases zero : n = 0
  · simp [zero, ofSmall, size]
  have short : n.log2 < 53 := (Nat.log2_lt zero).2 small
  have split : ((52 - n.log2 : Nat) : Int) = 52 - n.log2 := by omega
  change ((n * 2 ^ (52 - n.log2) : Nat) : ℚ) * 2 ^ ((n.log2 : Int) - 52) = n
  push_cast
  rw [← zpow_natCast, split, mul_assoc, ← zpow_add₀ two_ne_zero]
  simp

theorem covers_self (b : Binary) : b.Covers b.size := by
  have low : (b.interval.low : ℚ) ≤ 4 * b.mantissa := by
    have : b.interval.low ≤ 4 * b.mantissa := Nat.sub_le ..
    exact_mod_cast this
  have scale : (0 : ℚ) < 2 ^ (b.exponent - 2) := by positivity
  have middle : b.size = 4 * b.mantissa * 2 ^ (b.exponent - 2) := by
    rw [size, Covers.four_quarters b.exponent]
    ring
  rw [middle]
  refine ⟨?_, ?_, fun odd => ⟨?_, ?_⟩⟩
  · gcongr
  · rw [Covers.high_eq]
    gcongr
    linarith
  · have : b.interval.low < 4 * b.mantissa := by
      simp only [interval]
      split <;> omega
    have : (b.interval.low : ℚ) < 4 * b.mantissa := by exact_mod_cast this
    gcongr
  · rw [Covers.high_eq]
    gcongr
    linarith

end Binary

namespace Binary

variable {b x y : Binary}

theorem Positive.unpacked_eq (h : b.Positive) :
    b.unpacked = .finite .positive b.mantissa b.exponent h.some := by
  rw [unpacked, dif_neg h.some.ne', h.sign]
  rfl

theorem Positive.packed_eq (h : b.Positive) :
    b.packed = .ofModel (.pack (.finite .positive b.mantissa b.exponent h.some)) := by
  rw [packed, h.unpacked_eq]

theorem packed_mul (left : x.Positive) (right : y.Positive) : x.packed * y.packed =
    .ofModel (.pack (.mul Format.binary64 (.finite .positive x.mantissa x.exponent left.some)
      (.finite .positive y.mantissa y.exponent right.some))) := by
  rw [← left.unpacked_eq, ← right.unpacked_eq, ← unpack_packed left.toCanonical,
    ← unpack_packed right.toCanonical]
  rfl

theorem packed_div (left : x.Positive) (right : y.Positive) : x.packed / y.packed =
    .ofModel (.pack (.div Format.binary64 (.finite .positive x.mantissa x.exponent left.some)
      (.finite .positive y.mantissa y.exponent right.some))) := by
  rw [← left.unpacked_eq, ← right.unpacked_eq, ← unpack_packed left.toCanonical,
    ← unpack_packed right.toCanonical]
  rfl

end Binary

theorem toFloat_toUInt64 {n : Nat} (some : 0 < n) (small : n < 2 ^ 53) :
    n.toUInt64.toFloat = (Binary.ofSmall n).packed := by
  have positive := Binary.positive_ofSmall some small
  have short : n.log2 < 53 := (Nat.log2_lt some.ne').2 small
  have aim : target n 0 = (n.log2 : Int) - 52 := by
    unfold target
    omega
  have shift : (0 - ((n.log2 : Int) - 52)).toNat = 52 - n.log2 := by omega
  have exponent : (0 : Int) - (52 - n.log2 : Nat) = (n.log2 : Int) - 52 := by omega
  have same : n.toUInt64.toNat = n := UInt64.toNat_ofNat_of_lt (by
    change n < 2 ^ 64
    omega)
  change Float.ofModel (.pack (UnpackedFloat.ofInt Format.binary64 n.toUInt64.toNat)) = _
  rw [same, UnpackedFloat.ofInt, UnpackedFloat.normalize, Int.compare_eq_gt.2 (by omega),
    positive.packed_eq]
  dsimp only
  rw [Int.toNat_natCast, UnpackedFloat.round, targetExponent_eq, aim, decreaseExponent, shift,
    exponent, Nat.shiftLeft_eq]
  congr 2
  exact roundWithAccuracy_of_covers positive.toCanonical positive.some _ (Describes.exact _)
    (.inl (Binary.log2_ofSmall some small).ge) (Binary.covers_self (.ofSmall n))

theorem powersOfTen_exact : ∀ i : Fin Float.exactlyRepresentablePowersOfTen.size,
    ∃ p ∈ Binary.ofFloat? Float.exactlyRepresentablePowersOfTen[i],
      0 < p.mantissa ∧ p.negative = false ∧ -52 ≤ p.exponent ∧
        p.mantissa * 2 ^ (p.exponent + 52).toNat = 10 ^ i.val * 2 ^ 52 := by
  decide

theorem powerOfTen {k : Nat} (small : k ≤ 22) : ∃ p : Binary, p.Positive ∧ p.size = 10 ^ k ∧
    ∀ _ : k < Float.exactlyRepresentablePowersOfTen.size,
      Float.exactlyRepresentablePowersOfTen[k] = p.packed := by
  obtain ⟨p, read, some, sign, low, value⟩ := powersOfTen_exact ⟨k, Nat.lt_succ_of_le small⟩
  refine ⟨p, ⟨(Binary.canonical_of_ofFloat? read).1, some, sign⟩, ?_,
    fun _ => (Binary.packed_of_ofFloat? read).symm⟩
  have value : (p.mantissa * 2 ^ (p.exponent + 52).toNat : ℚ) = 10 ^ k * 2 ^ 52 := by
    exact_mod_cast value
  have split : (2 : ℚ) ^ (p.exponent + 52).toNat = 2 ^ p.exponent * 2 ^ 52 := by
    rw [← zpow_natCast, Int.toNat_of_nonneg (by omega), zpow_add₀ two_ne_zero]
    norm_num
  rw [split, ← mul_assoc] at value
  exact mul_right_cancel₀ (by norm_num) value

/-- What rounds to a double is no larger than the largest one and no smaller than half the
smallest one. -/
theorem Binary.Covers.range {b : Binary} {v : ℚ} (h : b.Covers v) (positive : b.Positive) :
    (2 : ℚ) ^ (-1075 : Int) ≤ v ∧ v < 2 ^ (1024 : Int) := by
  constructor
  · have one : (1 : ℚ) ≤ b.mantissa := by exact_mod_cast positive.some
    have half : (2 : ℚ) ^ (-1074 : Int) = 2 ^ (-1075 : Int) * 2 := by
      rw [← zpow_add_one₀ two_ne_zero]
      rfl
    calc (2 : ℚ) ^ (-1075 : Int) = 1 / 2 * 2 ^ (-1074 : Int) := by
          rw [half]
          ring
      _ ≤ (b.mantissa - 1 / 2) * 2 ^ b.exponent := by
        gcongr
        · linarith
        · linarith
        · norm_num
        · exact positive.low
      _ ≤ v := h.halves_low
  · have small : (b.mantissa : ℚ) + 1 ≤ 2 ^ 53 := by exact_mod_cast positive.small
    calc v ≤ (b.mantissa + 1 / 2) * 2 ^ b.exponent := h.halves_high
      _ < 2 ^ 53 * 2 ^ b.exponent := by
        gcongr
        linarith
      _ ≤ 2 ^ 53 * 2 ^ (971 : Int) := by
        gcongr
        · norm_num
        · exact positive.high
      _ = 2 ^ (1024 : Int) := mul_twoPow 53 971

section

variable {b : Binary} (positive : b.Positive) {n : Nat} {k : Int} (digits : 0 < n)
  (covers : b.Covers (n * 10 ^ k))

include positive digits covers

/-- The powers of ten that are not multiplied out do not occur in the range of the doubles. -/
theorem power_range : k ≤ 2 ^ 11 ∧ -((2 ^ 11 : Int) + n.log2) ≤ k := by
  obtain ⟨least, most⟩ := covers.range positive
  have one : (1 : ℚ) ≤ n := by exact_mod_cast digits
  constructor
  · by_contra large
    have : (2 : ℚ) ^ (1024 : Int) < n * 10 ^ k :=
      calc (2 : ℚ) ^ (1024 : Int) < 2 ^ k := zpow_lt_zpow_right₀ (by norm_num) (by omega)
        _ ≤ 10 ^ k := zpow_le_zpow_left₀ (by omega) (by norm_num) (by norm_num)
        _ ≤ n * 10 ^ k := le_mul_of_one_le_left (by positivity) one
    exact absurd (this.trans most) (lt_irrefl _)
  · by_contra small
    have above : (n : ℚ) ≤ 2 ^ (n.log2 + 1) := by exact_mod_cast Nat.lt_log2_self.le
    have power : (10 : ℚ) ^ k ≤ 2 ^ k := by
      rw [← inv_le_inv₀ (by positivity) (by positivity), ← zpow_neg, ← zpow_neg]
      exact zpow_le_zpow_left₀ (by omega) (by norm_num) (by norm_num)
    have : n * (10 : ℚ) ^ k < 2 ^ (-1075 : Int) :=
      calc n * (10 : ℚ) ^ k ≤ 2 ^ (n.log2 + 1) * 2 ^ k := by gcongr
        _ = 2 ^ (k + (n.log2 + 1 : Nat)) := mul_twoPow ..
        _ < 2 ^ (-1075 : Int) := zpow_lt_zpow_right₀ (by norm_num) (by push_cast; omega)
    exact absurd (least.trans_lt this) (lt_irrefl _)

/-- Few digits and a small power of ten are both doubles. -/
theorem ofScientific_fast (few : n < 2 ^ 53) (small : k.natAbs ≤ 22) :
    Float.ofScientific n (k < 0) k.natAbs = b.packed := by
  obtain ⟨p, power, size, entry⟩ := powerOfTen small
  have left := Binary.positive_ofSmall digits few
  rw [Float.ofScientific, dif_pos ⟨few, small⟩]
  dsimp only
  rw [entry, toFloat_toUInt64 digits few]
  by_cases below : k < 0
  · have value : (Binary.ofSmall n).size / p.size = n * 10 ^ k := by
      rw [Binary.size_ofSmall few, size, div_eq_mul_inv, ← zpow_natCast, ← zpow_neg,
        show -(k.natAbs : Int) = k by omega]
    rw [if_pos (decide_eq_true below), Binary.packed_div left power, positive.packed_eq,
      div_of_covers positive.toCanonical positive.some]
    · rfl
    · exact value ▸ covers
  · have value : (Binary.ofSmall n).size * p.size = n * 10 ^ k := by
      rw [Binary.size_ofSmall few, size, ← zpow_natCast, show (k.natAbs : Int) = k by omega]
    have product : 2 ^ 52 ≤ (Binary.ofSmall n).mantissa * p.mantissa :=
      (Binary.full_ofSmall digits few).1.trans (Nat.le_mul_of_pos_right _ power.some)
    rw [if_neg (by simpa using below), Binary.packed_mul left power, positive.packed_eq,
      mul_of_covers positive.toCanonical positive.some]
    · rfl
    · exact .inl ((Nat.le_log2 (Nat.mul_pos left.some power.some).ne').2 product)
    · exact value ▸ covers

theorem model_of_covers : Float.ofModel (Float.Model.ofScientific n k) = b.packed := by
  obtain ⟨most, least⟩ := power_range positive digits covers
  unfold Float.Model.ofScientific UnpackedFloat.ofScientific
  rw [dif_neg digits.ne', if_neg (by simpa using most), if_neg (by simpa using least),
    positive.packed_eq]
  congr 2
  split
  case isTrue nonnegative =>
    have whole : 2 ^ 52 ≤ n <<< 53 * 10 ^ k.toNat := by
      rw [Nat.shiftLeft_eq]
      calc 2 ^ 52 ≤ 1 * 2 ^ 53 * 1 := by decide
        _ ≤ n * 2 ^ 53 * 10 ^ k.toNat := by
          gcongr
          · exact digits
          · exact Nat.one_le_pow _ _ (by decide)
    have nonzero := Nat.ne_of_gt (Nat.lt_of_lt_of_le (Nat.two_pow_pos 52) whole)
    refine mul_of_covers positive.toCanonical positive.some _ _ _ _
      (.inl ((Nat.le_log2 nonzero).2 whole)) ?_
    convert covers using 1
    rw [Nat.shiftLeft_eq]
    push_cast
    rw [← zpow_natCast, ← zpow_natCast, Int.toNat_of_nonneg nonnegative, mul_assoc (n : ℚ),
      ← zpow_add₀ two_ne_zero]
    simp
  case isFalse below =>
    apply div_of_covers positive.toCanonical positive.some _ _ _ _
    push_cast
    rw [mul_one, mul_one, ← zpow_natCast, Int.toNat_of_nonneg (by omega), zpow_neg,
      div_inv_eq_mul]
    exact covers

/-- A decimal that lies in the rounding interval of a double reads back as that double. -/
theorem ofScientific_of_covers : Float.ofScientific n (k < 0) k.natAbs = b.packed := by
  by_cases small : n < 2 ^ 53 ∧ k.natAbs ≤ 22
  · exact ofScientific_fast positive digits covers small.1 small.2
  rw [Float.ofScientific, dif_neg small]
  dsimp only
  have same :
      (if decide (k < 0) = true then Int.negOfNat k.natAbs else Int.ofNat k.natAbs) = k := by
    rw [Int.negOfNat_eq]
    split
    case isTrue below =>
      rw [Int.ofNat_eq_natCast, Int.ofNat_natAbs_of_nonpos (of_decide_eq_true below).le,
        Int.neg_neg]
    case isFalse below =>
      have : ¬k < 0 := by simpa using below
      exact Int.natAbs_of_nonneg (by omega)
  rw [same]
  exact model_of_covers positive digits covers

end

/-- Whatever size a positive number has, it is stored as a double with a clear sign. -/
theorem isUnsigned_finite (m : Nat) (e : Int) (some : 0 < m) :
    isUnsigned (.ofModel (.pack (.finite .positive m e some))) = true := by
  by_cases large : 2 ^ Format.binary64.exponentBits ≤
      (e + Format.binary64.exponentBias + Format.binary64.mantissaBitsWithoutImplicit).toNat + 1
  · have infinite :
        Float.Model.pack (.finite .positive m e some) = .pack (.infinity .positive) := by
      simp only [Float.Model.pack, UnpackedFloat.pack, if_pos large]
    rw [infinite]
    exact isUnsigned_infinity
  obtain ⟨f, g, below, parts⟩ : ∃ (f : BitVec 11) (g : BitVec 52), f.toNat < 2047 ∧
      UnpackedFloat.pack Format.binary64 (.finite .positive m e some) =
        packComponents Format.binary64 .positive f g := by
    simp only [UnpackedFloat.pack, if_neg large]
    split
    · refine ⟨_, _, ?_, rfl⟩
      rw [BitVec.toNat_ofNat]
      apply Nat.lt_of_le_of_lt (Nat.mod_le _ _)
      simp only [Format.binary64] at large ⊢
      omega
    · exact ⟨0, _, by decide, rfl⟩
  apply isUnsigned_of_toBits_lt
  change (UnpackedFloat.pack Format.binary64 (.finite .positive m e some)).toNat < _
  have short := g.isLt
  rw [parts, packComponents_toNat, show Sign.positive.toBitVec.toNat = 0 from rfl]
  omega

theorem isUnsigned_rounded (m : Nat) (e : Int) (accuracy : Accuracy) :
    isUnsigned (.ofModel (.pack (roundWithAccuracy Format.binary64 .positive m e accuracy))) =
      true := by
  unfold roundWithAccuracy
  dsimp only
  split
  · exact isUnsigned_zero
  · exact isUnsigned_finite ..

theorem isUnsigned_model (n : Nat) (k : Int) :
    isUnsigned (.ofModel (.ofScientific n k)) = true := by
  unfold Float.Model.ofScientific UnpackedFloat.ofScientific
  split
  · exact isUnsigned_zero
  split
  · exact isUnsigned_infinity
  split
  · exact isUnsigned_zero
  split <;> exact isUnsigned_rounded ..

/-- A numeral without a sign reads as a double without a sign. -/
theorem isUnsigned_ofScientific {n : Nat} (digits : 0 < n) (s : Bool) (k : Nat) :
    isUnsigned (Float.ofScientific n s k) = true := by
  by_cases small : n < 2 ^ 53 ∧ k ≤ 22
  · obtain ⟨p, power, _, entry⟩ := powerOfTen small.2
    have left := Binary.positive_ofSmall digits small.1
    rw [Float.ofScientific, dif_pos small]
    dsimp only
    rw [entry, toFloat_toUInt64 digits small.1]
    split
    · rw [Binary.packed_div left power]
      exact isUnsigned_rounded ..
    · rw [Binary.packed_mul left power]
      exact isUnsigned_rounded ..
  · rw [Float.ofScientific, dif_neg small]
    exact isUnsigned_model ..

end SkillGraph.Number
