import SetScript.Number.Rounding
/-!
# The remainder of a division

The quotient is cut off towards zero and the remainder is exact: it is the remainder of the two
magnitudes in units, with the sign of the dividend.
-/

namespace SetScript.Number

/-- The value that stands for no number. -/
def nan : Float := 0.0 / 0.0

/-- `x` without its whole multiples of `y`. An infinite `y` leaves `x` as it is; there is no remainder
of an infinite `x` or by zero. -/
def rem (x y : Float) : Float :=
  let a := magnitude x
  let b := magnitude y
  if infinityBits ≤ a || infinityBits < b || b == 0 then nan
  else if b == infinityBits then x
  else
    let r := ofUnits (units a % units b)
    if isNegative x then -r else r

end SetScript.Number
