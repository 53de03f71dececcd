import SetScript.Number.Order
import SetScript.Number.Text
/-!
# Values

A value is a number, a truth value, a string, a set, a built-in function or nil. A set keeps its members
twice: in the order in which they came into it, and in an index that is asked for membership. Two sets are
the same if they have equally many members and each member of the one is found in the index of the other,
whatever their order.
-/

namespace SetScript

/-- The built-in functions. -/
inductive Builtin where
  | sqrt | abs | floor | ceil | min | max | sum | assert
  deriving Repr, DecidableEq

/-- The name that a built-in function is bound to. -/
def Builtin.name : Builtin → String
  | .sqrt => "sqrt"
  | .abs => "abs"
  | .floor => "floor"
  | .ceil => "ceil"
  | .min => "min"
  | .max => "max"
  | .sum => "sum"
  | .assert => "assert"

/-- All built-in functions. -/
def Builtin.all : List Builtin := [.sqrt, .abs, .floor, .ceil, .min, .max, .sum, .assert]

mutual

/-- A value. -/
inductive Value where
  | number (x : Float)
  | bool (b : Bool)
  | string (s : String)
  | set (members : Members)
  | builtin (f : Builtin)
  /-- The absence of a value. -/
  | nil

/-- The members of a set: the elements in the order in which they came into it, and the index in which
they are looked up. The order of the index is of no account. -/
structure Members where
  elements : List Value
  index : List Value

end

deriving instance Inhabited for Value

mutual

/-- Sameness of values. -/
def Value.same : Value → Value → Bool
  | .number x, .number y => Number.same x y
  | .bool b, .bool c => b == c
  | .string s, .string t => s == t
  | .set a, .set b => a.same b
  | .builtin f, .builtin g => f == g
  | .nil, .nil => true
  | _, _ => false

/-- Sameness of sets: equally many elements, and those of the first are in the index of the second. -/
def Members.same : Members → Members → Bool
  | ⟨as, _⟩, ⟨bs, index⟩ => as.length == bs.length && Value.allIn as index

/-- Each value of the first list is the same as some value of the second. -/
def Value.allIn : List Value → List Value → Bool
  | [], _ => true
  | v :: vs, ws => ws.any (fun w => v.same w) && Value.allIn vs ws

end

mutual

/-- A value as it is printed. -/
def Value.text : Value → String
  | .number x => Number.text x
  | .bool b => toString b
  | .string s => s
  | .set members => members.text
  | .builtin f => "<builtin " ++ f.name ++ ">"
  | .nil => "nil"

/-- The elements of a set in braces. -/
def Members.text : Members → String
  | ⟨elements, _⟩ => "\x7b" ++ ",".intercalate (Value.texts elements) ++ "\x7d"

/-- The texts of some values. -/
def Value.texts : List Value → List String
  | [] => []
  | v :: vs => v.text :: Value.texts vs

end

/-- The truth of a value: nil, `false` and the empty set are false, every other value is true. -/
def Value.isTruthy : Value → Bool
  | .nil => false
  | .bool b => b
  | .set members => !members.elements.isEmpty
  | .number _ | .string _ | .builtin _ => true

end SetScript
