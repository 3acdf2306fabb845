import SkillGraph.Number.Shortest

/-! Numerals: how the digits of a number are laid out, and the reading of decimal numerals. -/
namespace SkillGraph.Number

structure Style where
  tie : Tie
  /-- The decimal exponents that are written without an exponent part. -/
  positional : Int → Bool
  /-- Whether a whole number is written with `.0`. -/
  keepsPoint : Bool

def digits (n : Nat) : List Char := Nat.toDigits 10 n

def positionalDigits (d : Decimal) (keepsPoint : Bool) : List Char :=
  let ds := digits d.digits
  let whole := ds.length + d.exponent
  if 0 ≤ d.exponent then
    ds ++ List.replicate d.exponent.toNat '0' ++ (if keepsPoint then ['.', '0'] else [])
  else if 0 < whole then ds.take whole.toNat ++ '.' :: ds.drop whole.toNat
  else ['0', '.'] ++ List.replicate (-whole).toNat '0' ++ ds

/-- One digit before the point, the others behind it, and the exponent with its sign. -/
def scientificDigits (d : Decimal) (exponent : Int) : List Char :=
  let mantissa := match digits d.digits with
    | [] => []
    | [c] => [c]
    | c :: rest => c :: '.' :: rest
  mantissa ++ ['e', if exponent < 0 then '-' else '+'] ++ digits exponent.natAbs

def Style.magnitude (style : Style) (b : Binary) : List Char :=
  if b.mantissa = 0 then '0' :: (if style.keepsPoint then ['.', '0'] else [])
  else
    let d := b.shortest style.tie
    let exponent := (digits d.digits).length + d.exponent - 1
    if style.positional exponent then positionalDigits d style.keepsPoint
    else scientificDigits d exponent

def Style.write (style : Style) (b : Binary) : String :=
  String.ofList ((if b.negative then ['-'] else []) ++ style.magnitude b)

def ofDigits (ds : List Char) : Nat := ds.foldl (fun n c => 10 * n + (c.toNat - '0'.toNat)) 0

/-- The double nearest to `whole.fraction · 10 ^ exponent`. Exponents beyond all doubles are
settled first, so that no power of ten is larger than the numeral calls for. -/
def ofDecimal (whole fraction : List Char) (exponent : Int) : Float :=
  let mantissa := ofDigits (whole ++ fraction)
  let power := exponent - fraction.length
  let leading := (digits mantissa).length + power
  if mantissa = 0 || leading < -400 then 0.0
  else if 400 < leading then 1.0 / 0.0
  else Float.ofScientific mantissa (power < 0) power.natAbs

end SkillGraph.Number
