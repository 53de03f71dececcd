import SetScript.Number.Rounding
/-!
# Numbers as decimal text

A number is written with the fewest digits that read back as the same double, and never with an
exponent. Of several such decimals the nearest is written, and of two equally near ones the larger.

Every finite double is a whole number of 10^-1074, so a decimal here is a natural number `v` that
stands for `v / 10^1074`. The search goes over the multiples of 10^j, from coarse to fine: on the
first of these grids that has a decimal which reads back, one of the two neighbours of the exact
value does. The exact value itself is the last resort.
-/

namespace SetScript.Number

/-- The decimal places in which every finite double is exact. -/
def exactPlaces : Nat := 1074

/-- The exact value of the double with magnitude bits `b`, in 10^-1074. -/
def exactDecimal (b : Nat) : Nat := units b * Nat.pow 5 exactPlaces

/-- The decimal 1. -/
def decimalOne : Nat := Nat.pow 10 exactPlaces

/-- The decimal `v` rounds to the double with magnitude bits `b`. -/
def readsBack (b v : Nat) : Bool :=
  reaches v decimalOne b && !reaches v decimalOne (b + 1)

/-- The better neighbour of `b` among the multiples of 10^j, if one of the two reads back. -/
def neighbour? (b j : Nat) : Option Nat :=
  let exact := exactDecimal b
  let step := Nat.pow 10 j
  let below := exact / step * step
  let above := below + step
  match readsBack b below, readsBack b above with
  | true, true => some (if 2 * (exact - below) < step then below else above)
  | true, false => some below
  | false, true => some above
  | false, false => none

/-- The first hit on the grids 10^(j-1), …, 10^0. -/
def coarsest (b : Nat) : Nat → Nat
  | 0 => exactDecimal b
  | j + 1 => (neighbour? b j).getD (coarsest b j)

/-- The decimal with the fewest digits that reads back as the double with magnitude bits `b`. The first
grid is coarser than the number itself, since 2^10 < 10^3.0104. -/
def shortest (b : Nat) : Nat :=
  coarsest b ((exactDecimal b).log2 * 30104 / 100000 + 3)

/-- The digits of `r / 10^n` behind the point, up to the last that is not zero. -/
def fractionDigits : Nat → Nat → List Char
  | 0, _ => []
  | n + 1, r =>
    if r = 0 then [] else Nat.digitChar (r / Nat.pow 10 n) :: fractionDigits n (r % Nat.pow 10 n)

/-- The decimal `v` with all its digits before the point, and a point only where digits follow. -/
def positional (v : Nat) : List Char :=
  let whole := Nat.toDigits 10 (v / decimalOne)
  match fractionDigits exactPlaces (v % decimalOne) with
  | [] => whole
  | digits => whole ++ '.' :: digits

/-- A magnitude as text. -/
def magnitudeText (b : Nat) : String :=
  if infinityBits < b then "NaN"
  else if b = infinityBits then "inf"
  else String.ofList (positional (shortest b))

/-- A number as text. NaN has no sign, zero keeps it. -/
def text (x : Float) : String :=
  if isNegative x && magnitude x ≤ infinityBits then "-" ++ magnitudeText (magnitude x)
  else magnitudeText (magnitude x)

/-- The value of a run of decimal digits. -/
def digitsValue (digits : List Char) : Nat :=
  digits.foldl (fun n c => 10 * n + (c.toNat - '0'.toNat)) 0

/-- The double nearest to a decimal written with digits and at most one point. -/
def read (decimal : List Char) : Float :=
  let whole := decimal.takeWhile (· != '.')
  let fraction := (decimal.dropWhile (· != '.')).drop 1
  ofFraction (digitsValue (whole ++ fraction)) (Nat.pow 10 fraction.length)

end SetScript.Number
