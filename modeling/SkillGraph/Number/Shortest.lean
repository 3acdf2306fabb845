import SkillGraph.Number.Binary

/-! The fewest decimal digits that read back to a given double. The numbers that round to a double
form an interval; the digits come from the coarsest decimal grid with a point in that interval. -/
namespace SkillGraph.Number

inductive Tie where
  | up
  | even
  deriving DecidableEq, Repr

/-- The value `digits · 10 ^ exponent`. -/
structure Decimal where
  digits : Nat
  exponent : Int
  deriving DecidableEq, Repr

/-- The numbers that round to `middle`; the two ends belong to them if `closed`. -/
structure Interval where
  low : Nat
  middle : Nat
  high : Nat
  closed : Bool
  deriving DecidableEq, Repr

/-- The rounding interval in quarters of the last place. Below a power of two doubles lie twice as
close, so there the lower half is half as long. -/
def Binary.interval (b : Binary) : Interval where
  low := 4 * b.mantissa - (if b.mantissa = twoTo 52 && leastExponent < b.exponent then 1 else 2)
  middle := 4 * b.mantissa
  high := 4 * b.mantissa + 2
  closed := b.mantissa % 2 == 0

def Interval.scale (i : Interval) (factor : Nat) : Interval :=
  { i with low := i.low * factor, middle := i.middle * factor, high := i.high * factor }

def Interval.holds (i : Interval) (n : Nat) : Bool :=
  if i.closed then i.low ≤ n && n ≤ i.high else i.low < n && n < i.high

/-- The multiple of `unit` in the interval that lies nearest to its middle, counted in units. If
there is one, then one of the two neighbours of the middle is one. -/
def Interval.nearest? (i : Interval) (tie : Tie) (unit : Nat) : Option Nat :=
  let below := i.middle / unit
  match i.holds (below * unit), i.holds ((below + 1) * unit) with
  | false, false => none
  | true, false => some below
  | false, true => some (below + 1)
  | true, true =>
    let doubled := 2 * (i.middle % unit)
    if doubled < unit then some below
    else if unit < doubled then some (below + 1)
    else match tie with
      | .up => some (below + 1)
      | .even => some (if below % 2 = 0 then below else below + 1)

/-- The point of the grid `10 ^ exponent` that stands for the number, if it reads back. -/
def Binary.onGrid? (b : Binary) (tie : Tie) (exponent : Int) : Option Decimal :=
  let quarter := b.exponent - 2
  let factor := twoTo quarter.toNat * tenTo (-exponent).toNat
  let unit := twoTo (-quarter).toNat * tenTo exponent.toNat
  ((b.interval.scale factor).nearest? tie unit).map (⟨·, exponent⟩)

/-- An exponent whose grid has no point in the interval but perhaps the next power of ten. -/
def Binary.coarsest (b : Binary) : Int := (b.mantissa.log2 + 1 + b.exponent) * 30103 / 100000 + 2

/-- The fewest digits that read back. Seventeen always do, so the search ends within the grids
that are tried. -/
def Binary.shortest (b : Binary) (tie : Tie) : Decimal :=
  ((List.range 24).findSome? fun (i : Nat) => b.onGrid? tie (b.coarsest - i)).getD ⟨0, 0⟩

end SkillGraph.Number
