/-! Doubles as exact binary fractions, so that questions about their digits and remainders are
questions about integers. -/
namespace SkillGraph.Number

def twoTo (n : Nat) : Nat := Nat.pow 2 n

def tenTo (n : Nat) : Nat := Nat.pow 10 n

/-- The value `±mantissa · 2 ^ exponent`. -/
structure Binary where
  negative : Bool
  mantissa : Nat
  exponent : Int
  deriving DecidableEq, Repr

namespace Binary

def leastExponent : Int := -1074

/-- A finite double as a binary fraction with the exponent of its last stored bit. -/
def ofFloat? (x : Float) : Option Binary :=
  let bits := x.toBits.toNat
  let negative := bits / twoTo 63 == 1
  let biased := bits / twoTo 52 % twoTo 11
  let stored := bits % twoTo 52
  if biased = 2047 then none
  else if biased = 0 then some ⟨negative, stored, leastExponent⟩
  else some ⟨negative, twoTo 52 + stored, (biased : Int) - 1075⟩

/-- Exact when the mantissa has at most 53 bits and the exponent is at least `leastExponent`. -/
def toFloat (b : Binary) : Float :=
  let x := (Float.ofNat b.mantissa).scaleB b.exponent
  if b.negative then -x else x

def toInt? (b : Binary) : Option Int :=
  let magnitude :=
    if 0 ≤ b.exponent then some (b.mantissa * twoTo b.exponent.toNat)
    else if b.mantissa % twoTo (-b.exponent).toNat = 0 then
      some (b.mantissa / twoTo (-b.exponent).toNat)
    else none
  magnitude.map fun n => if b.negative then -(n : Int) else n

def scaledTo (b : Binary) (exponent : Int) : Nat :=
  b.mantissa * twoTo (b.exponent - exponent).toNat

/-- What is left of `a` after taking away `b` as often as its magnitude allows, with the sign
of `a`. -/
def remainder (a b : Binary) : Binary :=
  let exponent := min a.exponent b.exponent
  ⟨a.negative, a.scaledTo exponent % b.scaledTo exponent, exponent⟩

end Binary

/-- The exact remainder of a truncated division. An infinite divisor leaves the dividend as it is;
an infinite dividend or a zero divisor has no remainder. -/
def remainder (x y : Float) : Float :=
  match Binary.ofFloat? x, Binary.ofFloat? y with
  | some a, some b => if b.mantissa = 0 then 0.0 / 0.0 else (a.remainder b).toFloat
  | some _, none => if y.isNaN then y else x
  | none, _ => 0.0 / 0.0

end SkillGraph.Number
