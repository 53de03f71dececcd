import SetScript.Value.Basic
/-!
# Members of sets

The elements of a set are a list without two same values, and the index holds them too. Every operation
here keeps it so, and keeps the order: what is already there stays in its place, and what is new comes
behind it.
-/

namespace SetScript.Members

/-- No members. -/
def empty : Members := ⟨[], []⟩

/-- A value is the same as some member: it is found in the index. -/
def contains (members : Members) (v : Value) : Bool := members.index.any (fun w => v.same w)

/-- Puts a value behind the members, unless it is one of them. The truth value tells whether it was put
there. -/
def insert (members : Members) (v : Value) : Bool × Members :=
  if members.contains v then (false, members)
  else (true, ⟨members.elements ++ [v], v :: members.index⟩)

/-- The members among some values: the first of each group of same values. -/
def ofList (values : List Value) : Members := values.foldl (fun members v => (members.insert v).2) empty

/-- The members of `a`, and behind them the members of `b` that are not in `a`. -/
def union (a b : Members) : Members := ofList (a.elements ++ b.elements)

/-- The members of `a` that are in `b`. -/
def inter (a b : Members) : Members := ofList (a.elements.filter b.contains)

/-- Every member of `a` is in `b`. -/
def subset (a b : Members) : Bool := a.elements.all b.contains

/-- The number of members. -/
def length (members : Members) : Nat := members.elements.length

end SetScript.Members
