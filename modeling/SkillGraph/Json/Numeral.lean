import SkillGraph.Json.Basic
import SkillGraph.Number.Numeral

/-! The numbers of JSON text. An integer of at most 64 bits is exact. Every other number is computed
with doubles, from the digits that fit 64 bits and a power of ten, so that it may differ from the
nearest double in the last place. -/
namespace SkillGraph.Json

/-- Digits are taken up one by one while the number fits 64 bits; the others are left. -/
def gather (n : Nat) : List Char → Nat × List Char
  | [] => (n, [])
  | c :: rest =>
    let next := 10 * n + Number.ofDigits [c]
    if next < Number.twoTo 64 then gather next rest else (n, c :: rest)

/-- The decimal that stands for the numeral `whole.fraction`. Digits that are left count as zeros in
the whole part and for nothing in the fraction. -/
def significand (whole fraction : List Char) : Number.Decimal :=
  let (n, beyond) := gather 0 whole
  let (digits, left) := gather n fraction
  ⟨digits, beyond.length + left.length - fraction.length⟩

def greatestPower : Nat := 308

def powerOfTen (k : Nat) : Float := Float.ofScientific 1 false k

/-- Division by a power of ten, in steps where the power is not a double. -/
def dividedByPower (x : Float) (power : Nat) : Float :=
  if power ≤ greatestPower then x / powerOfTen power
  else if x == 0 then x
  else dividedByPower (x / powerOfTen greatestPower) (power - greatestPower)
termination_by power
decreasing_by simp only [greatestPower] at *; omega

/-- The double that the decimal is computed as, unless it lies beyond all doubles. -/
def computed? (d : Number.Decimal) : Option Float :=
  let x := Float.ofNat d.digits
  if d.exponent < 0 then some (dividedByPower x d.exponent.natAbs)
  else if greatestPower < d.exponent then if x == 0 then some x else none
  else
    let y := x * powerOfTen d.exponent.toNat
    if y.isInf then none else some y

/-- One below and one above the nearest double, and one out of range that has a nearest double. -/
example : (computed? ⟨7, 23⟩).map Float.toBits = some ((7e23 : Float).toBits - 1) ∧
    (computed? ⟨31245270191439438, -15⟩).map Float.toBits =
      some ((31.245270191439438 : Float).toBits + 1) ∧
    (computed? ⟨1797693134862315708, 290⟩).map Float.toBits = none := by
  decide +kernel

/-- Negative zero is no integer. -/
def integer? (negative : Bool) (n : Nat) : Option Int :=
  if negative then if n ≠ 0 && n ≤ Number.twoTo 63 then some (-n) else none
  else if n < Number.twoTo 64 then some n else none

def Number.ofParts? (negative : Bool) (whole : List Char) (fraction : Option (List Char))
    (exponent : Option Int) : Option Number :=
  match fraction, exponent, integer? negative (Number.ofDigits whole) with
  | none, none, some n => some (.integer n)
  | _, _, _ => do
    let d := significand whole (fraction.getD [])
    let x ← computed? ⟨d.digits, d.exponent + exponent.getD 0⟩
    return .decimal (if negative then -x else x)

end SkillGraph.Json
