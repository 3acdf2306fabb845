import SkillGraph.Number.Binary
import Mathlib

/-! Doubles and their bits. A finite double is packed from its binary fraction, whose mantissa has
53 bits unless the exponent is the least one. -/
namespace SkillGraph.Number

open Float.Model Float.Model.UnpackedFloat

section

variable (b : BitVec 64)

theorem unpackExponent_toNat :
    (@unpackExponent Format.binary64 b).toNat = b.toNat / 2 ^ 52 % 2 ^ 11 := by
  simp [unpackExponent, Nat.shiftRight_eq_div_pow]

theorem unpackMantissa_toNat :
    (@unpackMantissa Format.binary64 b).toNat = b.toNat % 2 ^ 52 := by
  simp [unpackMantissa]

theorem unpackSign_toNat :
    (@unpackSign Format.binary64 b).toNat = b.toNat / 2 ^ 63 := by
  have := b.isLt
  simp [unpackSign, Nat.shiftRight_eq_div_pow]
  omega

end

theorem packComponents_toNat (s : Sign) (e : BitVec 11) (m : BitVec 52) :
    (packComponents Format.binary64 s e m).toNat =
      s.toBitVec.toNat * 2 ^ 63 + e.toNat * 2 ^ 52 + m.toNat := by
  have := e.isLt
  have := m.isLt
  unfold packComponents
  rw [BitVec.toNat_append, BitVec.toNat_append, ← Nat.shiftLeft_add_eq_or_of_lt (by omega),
    ← Nat.shiftLeft_add_eq_or_of_lt (by omega)]
  simp [Nat.shiftLeft_eq]
  omega

def signOf (negative : Bool) : Sign := if negative then .negative else .positive

theorem signOf_toNat (negative : Bool) : (signOf negative).toBitVec.toNat = negative.toNat := by
  cases negative <;> rfl

theorem neg_signOf (negative : Bool) : -signOf negative = signOf !negative := by
  cases negative <;> rfl

def isNegative (x : Float) : Bool := x.toBits.toNat / twoTo 63 == 1

def biased (x : Float) : Nat := x.toBits.toNat / twoTo 52 % twoTo 11

def stored (x : Float) : Nat := x.toBits.toNat % twoTo 52

theorem toBits_eq_parts (x : Float) :
    x.toBits.toNat = (isNegative x).toNat * 2 ^ 63 + biased x * 2 ^ 52 + stored x := by
  have range : x.toBits.toNat < 2 ^ 64 := x.toBits.toNat_lt
  have sign : (isNegative x).toNat = x.toBits.toNat / 2 ^ 63 := by
    have bit : x.toBits.toNat / twoTo 63 = 0 ∨ x.toBits.toNat / twoTo 63 = 1 := by
      simp only [show twoTo 63 = 2 ^ 63 from rfl]
      omega
    change _ = x.toBits.toNat / twoTo 63
    rcases bit with bit | bit <;> simp [isNegative, bit]
  simp only [biased, stored, show twoTo 52 = 2 ^ 52 from rfl, show twoTo 11 = 2 ^ 11 from rfl]
  omega

theorem biased_lt (x : Float) : biased x < 2 ^ 11 := Nat.mod_lt _ (by decide)

theorem stored_lt (x : Float) : stored x < 2 ^ 52 := Nat.mod_lt _ (by decide)

theorem toNat_unpackExponent (x : Float) :
    (@unpackExponent Format.binary64 x.toModel.toBits.toBitVec).toNat = biased x :=
  unpackExponent_toNat _

theorem toNat_unpackMantissa (x : Float) :
    (@unpackMantissa Format.binary64 x.toModel.toBits.toBitVec).toNat = stored x :=
  unpackMantissa_toNat _

theorem ofBitVec_unpackSign (x : Float) :
    Sign.ofBitVec (@unpackSign Format.binary64 x.toModel.toBits.toBitVec) =
      signOf (isNegative x) := by
  have bit : (@unpackSign Format.binary64 x.toModel.toBits.toBitVec).toNat =
      x.toBits.toNat / twoTo 63 := unpackSign_toNat _
  unfold Sign.ofBitVec
  split
  case isTrue clear =>
    have zero : x.toBits.toNat / twoTo 63 = 0 := by rw [← bit, clear]; rfl
    simp [signOf, isNegative, zero]
  case isFalse set =>
    have apart : x.toBits.toNat / twoTo 63 ≠ 0 :=
      fun zero => set (BitVec.eq_of_toNat_eq (bit.trans zero))
    have one : x.toBits.toNat / twoTo 63 = 1 := by
      have := (@unpackSign Format.binary64 x.toModel.toBits.toBitVec).isLt
      omega
    simp [signOf, isNegative, one]

theorem eq_of_toBits_eq {x y : Float} (same : x.toBits.toNat = y.toBits.toNat) : x = y :=
  Float.toBits_inj.1 (UInt64.toNat_inj.1 same)

namespace Binary

/-- A fraction in the form in which a double stores it. -/
structure Canonical (b : Binary) : Prop where
  small : b.mantissa < 2 ^ 53
  low : -1074 ≤ b.exponent
  high : b.exponent ≤ 971
  full : 2 ^ 52 ≤ b.mantissa ∨ b.exponent = -1074

def unpacked (b : Binary) : UnpackedFloat :=
  if some : b.mantissa = 0 then .zero (signOf b.negative)
  else .finite (signOf b.negative) b.mantissa b.exponent (Nat.pos_of_ne_zero some)

/-- The bits without the sign. The first bit of a full mantissa is not stored. -/
def magnitudeBits (b : Binary) : Nat :=
  if b.mantissa < 2 ^ 52 then b.mantissa
  else (b.exponent + 1075).toNat * 2 ^ 52 + (b.mantissa - 2 ^ 52)

def bits (b : Binary) : Nat := b.negative.toNat * 2 ^ 63 + b.magnitudeBits

def packed (b : Binary) : Float := .ofModel (.pack b.unpacked)

theorem toBits_packed {b : Binary} (canonical : b.Canonical) : b.packed.toBits.toNat = b.bits := by
  obtain ⟨small, low, high, full⟩ := canonical
  change (UnpackedFloat.pack Format.binary64 b.unpacked).toNat = _
  unfold unpacked bits magnitudeBits
  split
  case isTrue zero =>
    rw [UnpackedFloat.pack, packedZero, packComponents_toNat, signOf_toNat, zero]
    simp
  case isFalse some =>
    have finite : ¬2 ^ Format.binary64.exponentBits ≤
        (b.exponent + Format.binary64.exponentBias +
          Format.binary64.mantissaBitsWithoutImplicit).toNat + 1 := by
      simp [Format.exponentBias]
      omega
    rw [UnpackedFloat.pack]
    simp only [if_neg finite]
    by_cases whole : b.mantissa < 2 ^ 52
    · have short : ¬b.mantissa.log2 + 1 = Format.binary64.mantissaBits := by
        have := (Nat.log2_lt some).2 whole
        simp [Format.mantissaBits]
        omega
      rw [if_neg short, packComponents_toNat, signOf_toNat, if_pos whole]
      simp
      omega
    · have long : b.mantissa.log2 + 1 = Format.binary64.mantissaBits := by
        have := (Nat.log2_eq_iff some).2 ⟨Nat.le_of_not_lt whole, small⟩
        simp [Format.mantissaBits, this]
      rw [if_pos long, packComponents_toNat, signOf_toNat, if_neg whole]
      simp [Format.exponentBias]
      omega

theorem ofFloat?_eq (x : Float) : ofFloat? x =
    if biased x = 2047 then none
    else if biased x = 0 then some ⟨isNegative x, stored x, -1074⟩
    else some ⟨isNegative x, 2 ^ 52 + stored x, (biased x : Int) - 1075⟩ := rfl

theorem canonical_of_ofFloat? {x : Float} {b : Binary} (read : ofFloat? x = some b) :
    b.Canonical ∧ x.toBits.toNat = b.bits := by
  have top := biased_lt x
  have short := stored_lt x
  rw [toBits_eq_parts]
  rw [ofFloat?_eq] at read
  generalize isNegative x = negative at *
  generalize biased x = e at *
  generalize stored x = m at *
  split at read
  · cases read
  split at read <;> obtain rfl := Option.some.inj read
  case isTrue zero =>
    refine ⟨⟨Nat.lt_trans short (by decide), Int.le_refl _, (by decide : (-1074 : Int) ≤ 971),
      .inr rfl⟩, ?_⟩
    simp only [bits, magnitudeBits, if_pos short, zero]
    omega
  case isFalse finite some =>
    refine ⟨⟨?_, ?_, ?_, .inl (Nat.le_add_right _ _)⟩, ?_⟩
    · change 2 ^ 52 + m < 2 ^ 53
      omega
    · change -1074 ≤ (e : Int) - 1075
      omega
    · change (e : Int) - 1075 ≤ 971
      omega
    · simp only [bits, magnitudeBits]
      rw [if_neg (by omega)]
      omega

theorem packed_of_ofFloat? {x : Float} {b : Binary} (read : ofFloat? x = some b) :
    b.packed = x := by
  obtain ⟨canonical, same⟩ := canonical_of_ofFloat? read
  exact eq_of_toBits_eq ((toBits_packed canonical).trans same.symm)

theorem magnitudeBits_lt {b : Binary} (canonical : b.Canonical) :
    b.magnitudeBits < 2047 * 2 ^ 52 := by
  obtain ⟨small, low, high, full⟩ := canonical
  unfold magnitudeBits
  split <;> omega

theorem parts_packed {b : Binary} (canonical : b.Canonical) :
    isNegative b.packed = b.negative ∧
      biased b.packed * 2 ^ 52 + stored b.packed = b.magnitudeBits := by
  have parts := toBits_eq_parts b.packed
  have top := biased_lt b.packed
  have short := stored_lt b.packed
  have bound := magnitudeBits_lt canonical
  rw [toBits_packed canonical, bits, Nat.add_assoc] at parts
  generalize biased b.packed = e at *
  generalize stored b.packed = m at *
  generalize isNegative b.packed = s at *
  generalize b.negative = t at *
  generalize b.magnitudeBits = n at *
  cases s <;> cases t <;> simp only [Bool.toNat_true, Bool.toNat_false] at parts
  · exact ⟨rfl, (Nat.add_left_cancel parts).symm⟩
  · omega
  · omega
  · exact ⟨rfl, (Nat.add_left_cancel parts).symm⟩

theorem ofFloat?_packed {b : Binary} (canonical : b.Canonical) : ofFloat? b.packed = some b := by
  obtain ⟨sign, magnitude⟩ := parts_packed canonical
  have top := biased_lt b.packed
  have short := stored_lt b.packed
  rw [ofFloat?_eq, sign]
  generalize biased b.packed = e at *
  generalize stored b.packed = m at *
  obtain ⟨negative, m', e'⟩ := b
  obtain ⟨small, low, high, full⟩ := canonical
  dsimp only [magnitudeBits] at small low high full magnitude
  split at magnitude
  case isTrue sub =>
    obtain ⟨rfl, rfl, rfl⟩ : e = 0 ∧ m = m' ∧ e' = -1074 := by omega
    rfl
  case isFalse sub =>
    obtain ⟨finite, normal, rfl, rfl⟩ :
        e ≠ 2047 ∧ e ≠ 0 ∧ 2 ^ 52 + m = m' ∧ (e : Int) - 1075 = e' := by omega
    rw [if_neg finite, if_neg normal]

theorem unpack_eq (x : Float) : x.toModel.unpack =
    match ofFloat? x with
    | some b => b.unpacked
    | none => if stored x = 0 then .infinity (signOf (isNegative x)) else .notANumber := by
  have exponent := toNat_unpackExponent x
  have mantissa := toNat_unpackMantissa x
  have sign := ofBitVec_unpackSign x
  have ones : @unpackExponent Format.binary64 x.toModel.toBits.toBitVec = -1#_ ↔
      biased x = 2047 := by rw [← exponent]; exact BitVec.toNat_inj.symm
  have none : @unpackExponent Format.binary64 x.toModel.toBits.toBitVec = 0#_ ↔
      biased x = 0 := by rw [← exponent]; exact BitVec.toNat_inj.symm
  have whole : @unpackMantissa Format.binary64 x.toModel.toBits.toBitVec = 0#_ ↔
      stored x = 0 := by rw [← mantissa]; exact BitVec.toNat_inj.symm
  rw [ofFloat?_eq, Float.Model.unpack, UnpackedFloat.unpack]
  simp only [sign, ones, none, whole]
  by_cases top : biased x = 2047
  · simp only [top, if_true]
  by_cases zero : biased x = 0
  · by_cases empty : stored x = 0
    · simp [zero, empty, unpacked]
    · simp [zero, empty, unpacked, exponent, mantissa, Format.exponentBias]
  · have full : (1#1 ++ @unpackMantissa Format.binary64 x.toModel.toBits.toBitVec).toNat =
        2 ^ 52 + stored x := by
      have short := stored_lt x
      rw [BitVec.toNat_append, mantissa, ← Nat.shiftLeft_add_eq_or_of_lt short]
      rfl
    simp [top, zero, unpacked, exponent, Format.exponentBias, full]

end Binary

end SkillGraph.Number
