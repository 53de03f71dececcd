/-!
# Fractions rounded to doubles

Every finite double is a whole number of units of 2^-1074, so a magnitude is a natural number and
all comparisons of a fraction with doubles are comparisons of natural numbers. `nearest` gives the
magnitude bits of the double closest to a fraction; between two equally close ones it takes the one
with even bits, and from the midpoint above the largest finite double on it gives infinity.
-/

namespace SetScript.Number

/-- How many doubles there are from one power of two up to the next. -/
def binade : Nat := 1 <<< 52

/-- The magnitude bits of infinity; the patterns above it stand for no number. -/
def infinityBits : Nat := 2047 * binade

/-- The double with magnitude bits `b`, in units of 2^-1074. Infinity counts as 2^1024. -/
def units (b : Nat) : Nat :=
  if b / binade = 0 then b else (binade + b % binade) <<< (b / binade - 1)

/-- Rounding `num / den` gives at least `b`: the fraction lies beyond the midpoint between `b` and the
double below it, or on that midpoint while `b` is even. -/
def reaches (num den : Nat) : Nat → Bool
  | 0 => true
  | b + 1 =>
    let midpoint := (units b + units (b + 1)) * den
    let value := num <<< 1075
    midpoint < value || (midpoint == value && (b + 1) % 2 == 0)

/-- The greatest number with property `p` among `b, …, b + 2 ^ n - 1`, for a `p` that holds up to some
point and not beyond it. -/
def greatest (p : Nat → Bool) : Nat → Nat → Nat
  | 0, b => b
  | n + 1, b => greatest p n (if p (b + (1 <<< n)) then b + (1 <<< n) else b)

/-- The magnitude bits of the double nearest to `num / den`. -/
def nearest (num den : Nat) : Nat :=
  greatest (fun b => b ≤ infinityBits && reaches num den b) 63 0

/-- The double nearest to `num / den`. -/
def ofFraction (num den : Nat) : Float :=
  Float.ofBits (UInt64.ofNat (nearest num den))

/-- The double with magnitude `u` units. -/
def ofUnits (u : Nat) : Float := ofFraction u (1 <<< 1074)

/-- The sign bit is set. -/
def isNegative (x : Float) : Bool := 0x8000000000000000 ≤ x.toBits

/-- The bits of the magnitude, without the sign. -/
def magnitude (x : Float) : Nat := (x.toBits % 0x8000000000000000).toNat

/-- The number is neither infinite nor NaN. -/
def isFinite (x : Float) : Bool := magnitude x < infinityBits

/-- The largest count that is taken as a number: up to here every natural number is a double. -/
def maxCount : Nat := 2 * binade - 1

/-- A count as a number. -/
def ofCount? (n : Nat) : Option Float := if n ≤ maxCount then some (ofFraction n 1) else none

end SetScript.Number
