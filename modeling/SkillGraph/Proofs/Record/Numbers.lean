import SkillGraph.Proofs.Number.Scientific
import SkillGraph.Record.Reader
import SkillGraph.Record.Writer

/-! Numbers in records. Whether a number is written as an integer, as a decimal or as the name of a
number that is not finite, it is read back as the same number, except that zero loses its sign. -/
namespace SkillGraph

namespace Number

open Float.Model Float.Model.UnpackedFloat

def recorded (x : Float) : Float := if x == 0.0 then 0.0 else x

namespace Binary

variable {b : Binary} {n : Int}

theorem beq_zero_packed (canonical : b.Canonical) : (b.packed == 0.0) = (b.mantissa == 0) := by
  have zero : (0.0 : Float).toModel.unpack = .zero .positive := rfl
  change (b.packed.toModel.unpack.compare (0.0 : Float).toModel.unpack == some .eq) = _
  rw [unpack_packed canonical, zero, unpacked]
  split
  case isTrue none => rw [none]; rfl
  case isFalse some => cases b.negative <;> rw [beq_false_of_ne some] <;> rfl

theorem recorded_packed (canonical : b.Canonical) (some : b.mantissa ≠ 0) :
    recorded b.packed = b.packed := by
  rw [recorded, beq_zero_packed canonical, beq_false_of_ne some]
  rfl

theorem recorded_zero (canonical : b.Canonical) (none : b.mantissa = 0) :
    recorded b.packed = 0.0 := by
  rw [recorded, beq_zero_packed canonical, none]
  rfl

theorem cast_twoTo (k : Nat) : ((twoTo k : Nat) : ℚ) = 2 ^ (k : Int) := by
  simp [twoTo]

theorem of_toInt? (whole : b.toInt? = some n) :
    ∃ m : Nat, (m : ℚ) = b.size ∧ n = if b.negative then -(m : Int) else m := by
  obtain ⟨k, magnitude, rfl⟩ := Option.map_eq_some_iff.1 whole
  obtain ⟨m, found, same⟩ := Option.bind_eq_some_iff.1 magnitude
  obtain rfl := Option.some.inj same
  refine ⟨m, ?_, rfl⟩
  unfold size
  split at found
  case isTrue up =>
    obtain rfl := Option.some.inj found
    rw [Nat.cast_mul, cast_twoTo, Int.toNat_of_nonneg up]
  case isFalse down =>
    split at found
    case isFalse => cases found
    case isTrue even =>
      obtain rfl := Option.some.inj found
      have some : ((twoTo (-b.exponent).toNat : Nat) : ℚ) ≠ 0 := by simp [twoTo]
      rw [Nat.cast_div (Nat.dvd_of_mod_eq_zero even) some, cast_twoTo,
        Int.toNat_of_nonneg (by omega), zpow_neg, div_inv_eq_mul]

theorem size_pos (some : 0 < b.mantissa) : 0 < b.size :=
  mul_pos (Nat.cast_pos.2 some) (zpow_pos two_pos _)

theorem toInt?_zero (none : b.mantissa = 0) : b.toInt? = some 0 := by
  unfold toInt?
  rw [none]
  by_cases up : 0 ≤ b.exponent <;> simp [up]

/-- A whole number that is the size of a fraction is converted to that fraction. -/
theorem ofNat_of_size (positive : b.Positive) {m : Nat} (same : (m : ℚ) = b.size) :
    Float.ofNat m = b.packed := by
  have some : 0 < m := by exact_mod_cast same ▸ size_pos positive.some
  have covers : b.Covers (m * 10 ^ (0 : Int)) := by
    simpa [same] using covers_self b
  exact ofScientific_of_covers positive some covers

theorem ofInt_of_toInt? (canonical : b.Canonical) (whole : b.toInt? = some n) :
    Float.ofInt n = recorded b.packed := by
  obtain ⟨m, same, rfl⟩ := of_toInt? whole
  by_cases none : b.mantissa = 0
  · obtain rfl : m = 0 := by simpa [size, none] using same
    rw [recorded_zero canonical none]
    cases b.negative <;> decide
  rw [recorded_packed canonical none]
  have some : 0 < b.mantissa := Nat.pos_of_ne_zero none
  cases sign : b.negative with
  | false => exact ofNat_of_size ⟨canonical, some, sign⟩ same
  | true =>
    have opposite : Float.ofNat m = b.negated.packed :=
      ofNat_of_size ⟨canonical.negated, some, by simp [negated, sign]⟩ same
    have flipped : b.negated.negated = b := by simp [negated]
    obtain ⟨k, rfl⟩ : ∃ k, m = k + 1 := by
      refine Nat.exists_eq_succ_of_ne_zero ?_
      rintro rfl
      exact absurd same (size_pos some).ne
    change -(Float.ofNat (k + 1)) = _
    rw [opposite, neg_packed canonical.negated, flipped]

end Binary

def agrees (x y : Float) : Bool := x == y || (x.isNaN && y.isNaN)

theorem agrees_recorded (x : Float) : agrees x (recorded x) = true := by
  unfold recorded agrees
  split
  case isTrue zero => rw [zero]; rfl
  case isFalse =>
    cases undefined : x.isNaN with
    | true => simp
    | false => rw [beq_self undefined]; rfl

/-- Every number but NaN equals the one that a record gives back. -/
theorem beq_recorded (x : Float) : (x == recorded x) = (x == x) := by
  cases undefined : x.isNaN with
  | true =>
    obtain rfl : x = Float.nan := by simpa using undefined
    decide
  | false =>
    have same := agrees_recorded x
    rw [agrees, undefined, Bool.false_and, Bool.or_false] at same
    rw [same, beq_self undefined]

theorem isNaN_recorded (x : Float) : (recorded x).isNaN = x.isNaN := by
  rcases cases_of_float x with special | ⟨b, canonical, rfl⟩
  · have kept : ∀ x ∈ specials, recorded x = x := by decide
    rw [kept x special]
  by_cases none : b.mantissa = 0
  · rw [Binary.recorded_zero canonical none, Binary.isNaN_packed canonical]
    decide
  · rw [Binary.recorded_packed canonical none]

theorem isUnsigned_recorded {x : Float} (unsigned : isUnsigned x = true) :
    isUnsigned (recorded x) = true := by
  unfold recorded
  split
  · decide
  · exact unsigned

end Number

namespace Record

/-- The words for the numbers that are not finite are those that the reader knows. -/
theorem specialNumber?_spellNumber : ∀ x ∈ Number.specials, Number.Binary.ofFloat? x = none ∧
    specialNumber? (spellNumber x) = some (Number.recorded x) := by
  decide

/-- A number is written as a number or as a word for one. -/
theorem numberJson_cases (x : Float) :
    (∃ n, numberJson x = .number n ∧ numberValue n = Number.recorded x) ∨
      ∃ s, numberJson x = .string s ∧ specialNumber? s = some (Number.recorded x) := by
  rcases Number.cases_of_float x with special | ⟨b, canonical, rfl⟩
  · obtain ⟨infinite, read⟩ := specialNumber?_spellNumber x special
    refine .inr ⟨spellNumber x, ?_, read⟩
    rw [numberJson, infinite]
  left
  -- Zero is always written as an integer.
  have decimal (some : b.mantissa ≠ 0) :
      numberValue (.decimal b.packed) = Number.recorded b.packed :=
    (Number.Binary.recorded_packed canonical some).symm
  unfold numberJson
  rw [Number.Binary.ofFloat?_packed canonical]
  dsimp only
  split
  case h_1 n whole =>
    split
    case isTrue => exact ⟨_, rfl, Number.Binary.ofInt_of_toInt? canonical whole⟩
    case isFalse large =>
      refine ⟨_, rfl, decimal fun none => large ?_⟩
      rw [Number.Binary.toInt?_zero none] at whole
      obtain rfl := Option.some.inj whole
      exact Nat.zero_le _
  case h_2 broken =>
    refine ⟨_, rfl, decimal fun none => ?_⟩
    rw [Number.Binary.toInt?_zero none] at broken
    cases broken

/-- Zero is written without its sign. -/
theorem numberJson_of_beq_zero {x : Float} (zero : (x == 0.0) = true) :
    numberJson x = .number (.integer 0) := by
  rcases Number.cases_of_float x with special | ⟨b, canonical, rfl⟩
  · have other : ∀ x ∈ Number.specials, (x == 0.0) = false := by decide
    rw [other x special] at zero
    cases zero
  · rw [Number.Binary.beq_zero_packed canonical, beq_iff_eq] at zero
    rw [numberJson, Number.Binary.ofFloat?_packed canonical]
    dsimp only
    rw [Number.Binary.toInt?_zero zero]
    rfl

theorem numberJson_recorded (x : Float) : numberJson (Number.recorded x) = numberJson x := by
  unfold Number.recorded
  split
  case isTrue zero => rw [numberJson_of_beq_zero zero, numberJson_of_beq_zero (by decide)]
  case isFalse => rfl

theorem readNumber_numberJson (x : Float) :
    readNumber (numberJson x) = .ok (Number.recorded x) := by
  rcases numberJson_cases x with ⟨n, written, read⟩ | ⟨s, written, read⟩
  · rw [written, readNumber, read]
  · rw [written, readNumber, read]

theorem readValue_numberJson (x : Float) :
    readValue (numberJson x) = .ok (.number (Number.recorded x)) := by
  rcases numberJson_cases x with ⟨n, written, read⟩ | ⟨s, written, read⟩
  · rw [written, readValue, read]
  · rw [written, readValue, read]

theorem isNull_numberJson (x : Float) : (numberJson x).isNull = false := by
  rcases numberJson_cases x with ⟨n, written, -⟩ | ⟨s, written, -⟩ <;> rw [written] <;> rfl

theorem merged_numberJson (x : Float) : (numberJson x).merged = numberJson x := by
  rcases numberJson_cases x with ⟨n, written, -⟩ | ⟨s, written, -⟩ <;> rw [written, Json.merged]

end Record

end SkillGraph
