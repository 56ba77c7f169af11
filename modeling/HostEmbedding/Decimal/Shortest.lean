/-!
# Shortest decimals

The decimal with the fewest digits that reads back as a given binary float, the nearer one where two
of that length do, the greater one where both are equally near. It is found in exact arithmetic:
the reals that round to the float form an interval, and grids of powers of ten are tried from coarse
to fine until one of the two grid points around the float lies in the interval.
-/

namespace HostEmbedding

/-- A binary interchange format: the widths of its exponent and fraction fields. -/
structure FloatFormat where
  exponentBits : Nat
  fractionBits : Nat

namespace FloatFormat

def single : FloatFormat := ⟨8, 23⟩

def double : FloatFormat := ⟨11, 52⟩

end FloatFormat

/-- What the bits of a float stand for: a magnitude is `mantissa` times two to the `exponent`, and
`tight` says that the float below is only half as far away as the one above. -/
inductive Magnitude where
  | nan
  | infinite
  | finite (mantissa : Nat) (exponent : Int) (tight : Bool)

/-- Split the bits of a float into sign and magnitude. -/
def FloatFormat.split (f : FloatFormat) (bits : Nat) : Bool × Magnitude :=
  let fraction := bits % (1 <<< f.fractionBits)
  let biased := (bits >>> f.fractionBits) % (1 <<< f.exponentBits)
  let negative := (bits >>> (f.fractionBits + f.exponentBits)) % 2 = 1
  let shift : Int := Int.ofNat (1 <<< (f.exponentBits - 1)) - 1 + f.fractionBits
  let magnitude :=
    if biased = (1 <<< f.exponentBits) - 1 then
      if fraction = 0 then .infinite else .nan
    else if biased = 0 then .finite fraction (1 - shift) false
    else .finite (fraction + (1 <<< f.fractionBits)) (biased - shift) (fraction = 0 && biased > 1)
  (negative, magnitude)

/-- A decimal: `digits` times ten to the `exponent`. -/
structure Decimal where
  digits : Nat
  exponent : Int
  deriving DecidableEq

namespace Decimal

/-- The interval of reals that round to a float, scaled so that a unit is a quarter of the gap above
the float. -/
structure Interval where
  low : Nat
  mid : Nat
  high : Nat
  closed : Bool

/-- Whether `d` grid steps of size `step` lie in an interval. -/
def Interval.contains (i : Interval) (step d : Nat) : Bool :=
  if i.closed then i.low ≤ d * step && d * step ≤ i.high
  else i.low < d * step && d * step < i.high

/-- The neighbour of the middle on a grid that lies in the interval; of two the nearer one, of two
equally near ones the greater one. -/
def Interval.hit? (i : Interval) (step : Nat) : Option Nat :=
  let below := i.mid / step
  let above := below + 1
  match i.contains step below, i.contains step above with
  | true, true => some (if i.mid - below * step < above * step - i.mid then below else above)
  | true, false => some below
  | false, true => some above
  | false, false => none

/-- The interval around a float, in units of two to the `exponent - 2`. -/
def interval (mantissa : Nat) (tight : Bool) : Interval :=
  ⟨4 * mantissa - (if tight then 1 else 2), 4 * mantissa, 4 * mantissa + 2, mantissa % 2 = 0⟩

def Interval.scale (i : Interval) (n : Nat) : Interval :=
  ⟨i.low * n, i.mid * n, i.high * n, i.closed⟩

/-- Try the grid of ten to the `k`, then up to `fuel` finer ones. -/
def search (mantissa : Nat) (exponent : Int) (tight : Bool) : Nat → Int → Decimal
  | 0, k => ⟨0, k⟩
  | fuel + 1, k =>
      let e := exponent - 2
      let i := (interval mantissa tight).scale (2 ^ e.toNat * 10 ^ (-k).toNat)
      let step := 2 ^ (-e).toNat * 10 ^ k.toNat
      match i.hit? step with
      | some d => ⟨d, k⟩
      | none => search mantissa exponent tight fuel (k - 1)

/-- The shortest decimal of a positive float: no double reaches ten to the 309, and seventeen digits
below its leading one always suffice. -/
def shortest (mantissa : Nat) (exponent : Int) (tight : Bool) : Decimal :=
  search mantissa exponent tight 660 309

/-- A decimal in positional notation, without a point when it is an integer. -/
def positional (d : Decimal) : String :=
  let digits := toString d.digits
  if 0 ≤ d.exponent then digits ++ "".pushn '0' d.exponent.toNat
  else
    let places := (-d.exponent).toNat
    if places < digits.length then
      let cs := digits.toList
      String.ofList (cs.take (cs.length - places) ++ '.' :: cs.drop (cs.length - places))
    else "0." ++ "".pushn '0' (places - digits.length) ++ digits

end Decimal

/-- The written form of a float: the shortest decimal in positional notation, the sign of zero kept. -/
def FloatFormat.text (f : FloatFormat) (bits : Nat) : String :=
  let (negative, magnitude) := f.split bits
  let mark := if negative then "-" else ""
  match magnitude with
  | .nan => "NaN"
  | .infinite => mark ++ "inf"
  | .finite 0 _ _ => mark ++ "0"
  | .finite m e tight => mark ++ (Decimal.shortest m e tight).positional

end HostEmbedding
