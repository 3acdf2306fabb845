import SkillGraph.Node
import SkillGraph.Proofs.Number.Packing

/-! Signs of doubles. A double is NaN, one of the infinities or packed from a fraction, and negation
turns the sign of all but NaN. -/
namespace SkillGraph.Number

open Float.Model Float.Model.UnpackedFloat

def infinity : Float := 1.0 / 0.0

/-- A double with a clear sign that is not NaN. -/
def isUnsigned (x : Float) : Bool := !x.isNaN && !isNegative x

namespace Binary

def negated (b : Binary) : Binary := { b with negative := !b.negative }

variable {b : Binary}

theorem Canonical.negated (h : b.Canonical) : b.negated.Canonical :=
  ⟨h.small, h.low, h.high, h.full⟩

theorem unpack_packed (canonical : b.Canonical) : b.packed.toModel.unpack = b.unpacked := by
  rw [unpack_eq, ofFloat?_packed canonical]

theorem neg_unpacked (b : Binary) : b.unpacked.neg = b.negated.unpacked := by
  unfold unpacked
  split <;> simp_all [Binary.negated, UnpackedFloat.neg, neg_signOf]

theorem neg_packed (canonical : b.Canonical) : -b.packed = b.negated.packed := by
  change Float.ofModel (.pack b.packed.toModel.unpack.neg) = _
  rw [unpack_packed canonical, neg_unpacked]
  rfl

theorem isNaN_packed (canonical : b.Canonical) : b.packed.isNaN = false := by
  change b.packed.toModel.unpack.isNaN = false
  rw [unpack_packed canonical, unpacked]
  split <;> rfl

theorem isUnsigned_packed (canonical : b.Canonical) : isUnsigned b.packed = !b.negative := by
  rw [isUnsigned, isNaN_packed canonical, (parts_packed canonical).1]
  rfl

end Binary

def specials : List Float := [0.0 / 0.0, infinity, -infinity]

theorem of_mem_specials : ∀ x ∈ specials, (-x).isNaN = x.isNaN ∧ -(-x) = x ∧
    (x.isNaN = false → isUnsigned (-x) = !isUnsigned x ∧
      (isUnsigned x = false → spellNumber x = "-" ++ spellNumber (-x))) ∧
    (isUnsigned x = true → x = infinity) := by
  decide

theorem mem_specials {x : Float} (read : Binary.ofFloat? x = none) : x ∈ specials := by
  have parts := toBits_eq_parts x
  have top : biased x = 2047 := by
    rw [Binary.ofFloat?_eq] at read
    split at read
    · assumption
    · split at read <;> cases read
  by_cases whole : stored x = 0
  · rw [top, whole] at parts
    cases sign : isNegative x with
    | false =>
      have same : x = infinity := eq_of_toBits_eq (by rw [parts, sign]; decide)
      simp [specials, same]
    | true =>
      have same : x = -infinity := eq_of_toBits_eq (by rw [parts, sign]; decide)
      simp [specials, same]
  · have quiet := x.toModel.valid.eq_packedNaN
      (BitVec.eq_of_toNat_eq ((toNat_unpackExponent x).trans top))
      fun zero => whole (by rw [← toNat_unpackMantissa, zero]; rfl)
    have same : x = 0.0 / 0.0 := by
      apply eq_of_toBits_eq
      change x.toModel.toBits.toBitVec.toNat = _
      rw [quiet]
      decide
    simp [specials, same]

theorem cases_of_float (x : Float) :
    x ∈ specials ∨ ∃ b : Binary, b.Canonical ∧ b.packed = x := by
  cases read : Binary.ofFloat? x with
  | none => exact .inl (mem_specials read)
  | some b =>
    exact .inr ⟨b, (Binary.canonical_of_ofFloat? read).1, Binary.packed_of_ofFloat? read⟩

/-- Bits below those of the infinity make up a number without a sign. -/
theorem isUnsigned_of_toBits_lt {x : Float} (low : x.toBits.toNat < 2047 * 2 ^ 52) :
    isUnsigned x = true := by
  have whole := toBits_eq_parts x
  have positive : isNegative x = false := by
    cases sign : isNegative x with
    | false => rfl
    | true =>
      rw [sign, Bool.toNat_true] at whole
      omega
  have finite : biased x ≠ 2047 := by omega
  obtain ⟨b, read⟩ : ∃ b, Binary.ofFloat? x = some b := by
    rw [Binary.ofFloat?_eq, if_neg finite]
    split <;> exact ⟨_, rfl⟩
  obtain rfl := Binary.packed_of_ofFloat? read
  rw [isUnsigned, Binary.isNaN_packed (Binary.canonical_of_ofFloat? read).1, positive]
  rfl

theorem isUnsigned_neg {x : Float} (notNaN : x.isNaN = false) :
    isUnsigned (-x) = !isUnsigned x := by
  rcases cases_of_float x with special | ⟨b, canonical, rfl⟩
  · exact ((of_mem_specials x special).2.2.1 notNaN).1
  · rw [Binary.neg_packed canonical, Binary.isUnsigned_packed canonical.negated,
      Binary.isUnsigned_packed canonical]
    rfl

@[simp] theorem isNaN_neg (x : Float) : (-x).isNaN = x.isNaN := by
  rcases cases_of_float x with special | ⟨b, canonical, rfl⟩
  · exact (of_mem_specials x special).1
  · rw [Binary.neg_packed canonical, Binary.isNaN_packed canonical.negated,
      Binary.isNaN_packed canonical]

@[simp] theorem neg_neg (x : Float) : -(-x) = x := by
  rcases cases_of_float x with special | ⟨b, canonical, rfl⟩
  · exact (of_mem_specials x special).2.1
  · rw [Binary.neg_packed canonical, Binary.neg_packed canonical.negated]
    simp [Binary.negated]

theorem isNaN_of_isUnsigned {x : Float} (unsigned : isUnsigned x = true) : x.isNaN = false := by
  simp_all [isUnsigned]

theorem beq_self {x : Float} (notNaN : x.isNaN = false) : (x == x) = true := by
  simpa using notNaN

theorem isUnsigned_infinity : isUnsigned infinity = true := by decide

theorem isUnsigned_zero : isUnsigned (.ofModel (.pack (.zero .positive))) = true := by
  decide

theorem spellNumber_packed {b : Binary} (canonical : b.Canonical) :
    spellNumber b.packed = numeralStyle.write b := by
  rw [spellNumber, Binary.ofFloat?_packed canonical]

/-- A number with its sign set is spelled as a minus sign and its opposite. -/
theorem spellNumber_signed {x : Float} (notNaN : x.isNaN = false) (signed : isUnsigned x = false) :
    spellNumber x = "-" ++ spellNumber (-x) := by
  rcases cases_of_float x with special | ⟨b, canonical, rfl⟩
  · exact ((of_mem_specials x special).2.2.1 notNaN).2 signed
  · rw [Binary.isUnsigned_packed canonical] at signed
    have negative : b.negative = true := by simpa using signed
    have same : numeralStyle.magnitude b.negated = numeralStyle.magnitude b := rfl
    rw [Binary.neg_packed canonical, spellNumber_packed canonical,
      spellNumber_packed canonical.negated, Style.write, Style.write, same]
    simp [Binary.negated, negative]

end SkillGraph.Number
