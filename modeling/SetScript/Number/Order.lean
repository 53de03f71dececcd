import SetScript.Number.Rounding
/-!
# The order of numbers

A number that is not NaN has a place on a line: its magnitude bits, counted downwards for negative
numbers. The two zeros share a place. Equality and order go by the place; NaN has none, equals only
itself and is neither before nor after anything.
-/

namespace SetScript.Number

/-- The place of a number on the line; NaN has none. -/
def place? (x : Float) : Option Int :=
  if magnitude x ≤ infinityBits then
    some (if isNegative x then -(magnitude x : Int) else magnitude x)
  else
    none

/-- Equality of numbers: `0` equals `-0`, and NaN equals NaN. -/
def same (x y : Float) : Bool :=
  (magnitude x == magnitude y && (magnitude x == 0 || isNegative x == isNegative y))
    || (infinityBits < magnitude x && infinityBits < magnitude y)

/-- Equal numbers are those that share a place, or have none. -/
theorem same_iff_place_eq (x y : Float) : same x y = true ↔ place? x = place? y := by
  cases hx : isNegative x <;> cases hy : isNegative y <;>
    grind [same, place?]

/-- Both are numbers on the line, and their places are related by `r`. -/
def compareBy (r : Int → Int → Bool) (x y : Float) : Bool :=
  match place? x, place? y with
  | some i, some j => r i j
  | _, _ => false

def lt (x y : Float) : Bool := compareBy (· < ·) x y
def le (x y : Float) : Bool := compareBy (· ≤ ·) x y

/-- The smaller of two numbers; NaN gives way to the other one. -/
def lesser (x y : Float) : Float :=
  match place? x, place? y with
  | none, _ => y
  | some _, none => x
  | some i, some j => if i ≤ j then x else y

/-- The larger of two numbers; NaN gives way to the other one. -/
def greater (x y : Float) : Float :=
  match place? x, place? y with
  | none, _ => y
  | some _, none => x
  | some i, some j => if j ≤ i then x else y

end SetScript.Number
