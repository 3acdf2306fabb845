import SkillGraph.Proofs.Number.Scientific

/-! The digits that are written. They are a point of a decimal grid in the rounding interval of the
double, and one of the grids that are tried is fine enough to have one. -/
namespace SkillGraph.Number

variable {i : Interval} {tie : Tie} {unit n : Nat}

theorem Interval.holds_of_nearest? (found : i.nearest? tie unit = some n) :
    i.holds (n * unit) = true := by
  unfold Interval.nearest? at found
  dsimp only at found
  split at found
  case h_1 => cases found
  case h_2 left _ => exact Option.some.inj found ▸ left
  case h_3 right => exact Option.some.inj found ▸ right
  case h_4 left right =>
    repeat' split at found
    all_goals
      obtain rfl := Option.some.inj found
      assumption

/-- A grid that is finer than the upper half of the interval has a point there. -/
theorem Interval.isSome_nearest? (some : 0 < unit) (order : i.low ≤ i.middle)
    (fine : i.middle + unit < i.high) : (i.nearest? tie unit).isSome = true := by
  have above : i.middle < (i.middle / unit + 1) * unit := by
    rw [Nat.mul_comm]
    exact Nat.lt_mul_div_succ _ some
  have near : (i.middle / unit + 1) * unit ≤ i.middle + unit := by
    rw [Nat.add_mul, Nat.one_mul]
    exact Nat.add_le_add_right (Nat.div_mul_le_self ..) _
  have held : i.holds ((i.middle / unit + 1) * unit) = true := by
    unfold Interval.holds
    split <;> simp only [Bool.and_eq_true, decide_eq_true_eq] <;> omega
  unfold Interval.nearest?
  dsimp only
  rw [held]
  repeat' split
  all_goals simp_all

/-- A power of ten lies below a power of two if its exponent is small enough, where `q / p` is an
estimate of the logarithm. -/
theorem tenPow_lt_twoPow {k s : Int} {p q : Nat}
    (estimate : ((10 : ℚ) ^ q) ^ s ≤ (2 ^ p) ^ s) (less : p * k < q * s) :
    (10 : ℚ) ^ k < 2 ^ s := by
  apply lt_of_pow_lt_pow_left₀ p (by positivity)
  calc ((10 : ℚ) ^ k) ^ p = 10 ^ (p * k) := by rw [mul_comm, zpow_mul, zpow_natCast]
    _ < 10 ^ (q * s) := zpow_lt_zpow_right₀ (by norm_num) less
    _ = (10 ^ q) ^ s := by rw [zpow_mul, zpow_natCast]
    _ ≤ (2 ^ p) ^ s := estimate
    _ = (2 ^ s) ^ p := by rw [← zpow_natCast, ← zpow_natCast, ← zpow_mul, ← zpow_mul, mul_comm]

namespace Binary

variable {b : Binary}

/-- The last of the grids is finer than half a unit in the last place. -/
theorem finest (canonical : b.Canonical) : (10 : ℚ) ^ (b.coarsest - 23) < 2 ^ (b.exponent - 1) := by
  have bits : b.mantissa.log2 < 53 := by
    by_cases zero : b.mantissa = 0
    · simp [zero]
    · exact (Nat.log2_lt zero).2 canonical.small
  have low := canonical.low
  have high := canonical.high
  unfold coarsest
  generalize b.mantissa.log2 = l at *
  generalize b.exponent = e at *
  rcases le_or_gt 1 e with normal | small
  · refine tenPow_lt_twoPow (p := 10) (q := 3) ?_ (by omega)
    exact zpow_le_zpow_left₀ (by omega) (by norm_num) (by norm_num)
  · refine tenPow_lt_twoPow (p := 93) (q := 28) ?_ (by omega)
    rw [← inv_le_inv₀ (by positivity) (by positivity), ← zpow_neg, ← zpow_neg]
    exact zpow_le_zpow_left₀ (by omega) (by norm_num) (by norm_num)

theorem pow_toNat {a : ℚ} (nonzero : a ≠ 0) (k : Int) :
    a ^ k.toNat = a ^ (-k).toNat * a ^ k := by
  rw [← zpow_natCast, ← zpow_natCast, ← zpow_add₀ nonzero]
  congr 1
  omega

theorem grid_pos (q k : Int) : 0 < twoTo q.toNat * tenTo k.toNat :=
  Nat.mul_pos (Nat.pow_pos (by decide)) (Nat.pow_pos (by decide))

/-- The factor and the unit of a grid are to each other as a quarter and a step. -/
theorem grid_ratio (q k : Int) : ∃ c : ℚ, 0 < c ∧
    ((twoTo q.toNat * tenTo (-k).toNat : Nat) : ℚ) = 2 ^ q * c ∧
    ((twoTo (-q).toNat * tenTo k.toNat : Nat) : ℚ) = 10 ^ k * c := by
  refine ⟨2 ^ (-q).toNat * 10 ^ (-k).toNat, by positivity, ?_, ?_⟩
  · change ((2 ^ q.toNat * 10 ^ (-k).toNat : Nat) : ℚ) = _
    push_cast
    rw [pow_toNat two_ne_zero q]
    ring
  · change ((2 ^ (-q).toNat * 10 ^ k.toNat : Nat) : ℚ) = _
    push_cast
    rw [pow_toNat (by norm_num) k]
    ring

theorem covers_of_onGrid? {tie : Tie} {k : Int} {d : Decimal} (positive : 0 < b.mantissa)
    (found : b.onGrid? tie k = some d) :
    0 < d.digits ∧ b.Covers (d.digits * 10 ^ d.exponent) := by
  unfold onGrid? at found
  dsimp only at found
  obtain ⟨n, near, rfl⟩ := Option.map_eq_some_iff.1 found
  obtain ⟨c, ratio, factor, unit⟩ := grid_ratio (b.exponent - 2) k
  have held := Interval.holds_of_nearest? near
  have some : 0 < twoTo (b.exponent - 2).toNat * tenTo (-k).toNat := grid_pos ..
  generalize twoTo (b.exponent - 2).toNat * tenTo (-k).toNat = f at *
  generalize twoTo (-(b.exponent - 2)).toNat * tenTo k.toNat = u at *
  have below {a : Nat} : a * f ≤ n * u ↔ (a * 2 ^ (b.exponent - 2) : ℚ) ≤ n * 10 ^ k := by
    rw [← mul_le_mul_iff_left₀ ratio, mul_assoc, mul_assoc, ← factor, ← unit]
    norm_cast
  have above {a : Nat} : n * u ≤ a * f ↔ (n * 10 ^ k : ℚ) ≤ a * 2 ^ (b.exponent - 2) := by
    rw [← mul_le_mul_iff_left₀ ratio, mul_assoc, mul_assoc, ← factor, ← unit]
    norm_cast
  have inside : (b.interval.low * f ≤ n * u ∧ n * u ≤ b.interval.high * f) ∧
      (b.mantissa % 2 = 1 → b.interval.low * f < n * u ∧ n * u < b.interval.high * f) := by
    unfold Interval.holds at held
    split at held
    case isTrue closed =>
      have even : b.mantissa % 2 = 0 := eq_of_beq closed
      simp only [Bool.and_eq_true, decide_eq_true_eq] at held
      exact ⟨held, fun odd => by omega⟩
    case isFalse =>
      simp only [Bool.and_eq_true, decide_eq_true_eq] at held
      exact ⟨⟨held.1.le, held.2.le⟩, fun _ => held⟩
  obtain ⟨⟨low, high⟩, odd⟩ := inside
  refine ⟨?_, below.1 low, above.1 high, ?_⟩
  · have least : 0 < b.interval.low := by
      simp only [interval]
      split <;> omega
    exact Nat.pos_of_mul_pos_right ((Nat.mul_pos least some).trans_le low)
  · intro one
    rw [← not_le, ← not_le, ← above, ← below, not_le, not_le]
    exact odd one

theorem isSome_onGrid? (tie : Tie) (canonical : b.Canonical) :
    (b.onGrid? tie (b.coarsest - 23)).isSome = true := by
  unfold onGrid?
  rw [Option.isSome_map]
  apply Interval.isSome_nearest? (grid_pos ..) (Nat.mul_le_mul_right _ (Nat.sub_le ..))
  have fine := finest canonical
  obtain ⟨c, ratio, factor, unit⟩ := grid_ratio (b.exponent - 2) (b.coarsest - 23)
  generalize b.coarsest - 23 = k at *
  change 4 * b.mantissa * (twoTo (b.exponent - 2).toNat * tenTo (-k).toNat) +
    twoTo (-(b.exponent - 2)).toNat * tenTo k.toNat <
      (4 * b.mantissa + 2) * (twoTo (b.exponent - 2).toNat * tenTo (-k).toNat)
  generalize twoTo (b.exponent - 2).toNat * tenTo (-k).toNat = f at *
  generalize twoTo (-(b.exponent - 2)).toNat * tenTo k.toNat = u at *
  have step : (u : ℚ) < 2 * f :=
    calc (u : ℚ) = 10 ^ k * c := unit
      _ < 2 ^ (b.exponent - 1) * c := by gcongr
      _ = 2 * f := by
        rw [factor, show b.exponent - 1 = b.exponent - 2 + 1 by omega, zpow_add_one₀ two_ne_zero]
        ring
  have step : u < 2 * f := by exact_mod_cast step
  rw [Nat.add_mul]
  omega

/-- What is written for a double above zero rounds to it. -/
theorem covers_shortest (positive : b.Positive) (tie : Tie) :
    0 < (b.shortest tie).digits ∧
      b.Covers ((b.shortest tie).digits * 10 ^ (b.shortest tie).exponent) := by
  unfold shortest
  cases search : (List.range 24).findSome? fun (i : Nat) => b.onGrid? tie (b.coarsest - i) with
  | none =>
    have last := List.findSome?_eq_none_iff.1 search 23 (by decide)
    have found := isSome_onGrid? tie positive.toCanonical
    rw [show b.coarsest - 23 = b.coarsest - (23 : Nat) from rfl, last] at found
    cases found
  | some d =>
    obtain ⟨i, _, found⟩ := List.exists_of_findSome?_eq_some search
    exact covers_of_onGrid? positive.some found

end Binary

end SkillGraph.Number
