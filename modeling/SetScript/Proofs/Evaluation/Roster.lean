import Mathlib.Data.List.Induction
import SetScript.Proofs.Evaluation.Computation
import SetScript.Proofs.Value.Order
/-!
# Rosters and unions

A roster evaluates its elements from left to right and collects their values; a union of singletons makes a new set at
each operator. Between the same evaluations both put one value behind the others (`Members.union_singleton`), so they
end alike: with the same elements in the same order, or with the same fault (`Expr.eval_roster_eq_union`).
-/

namespace SetScript

/-! ## Sets -/

namespace Members

theorem ofList_concat (vs : List Value) (v : Value) : ofList (vs ++ [v]) = ((ofList vs).insert v).2 :=
  List.foldl_append ..

/-- A set that has been collected is collected again from its elements. -/
theorem ofList_elements_ofList (vs : List Value) : ofList (ofList vs).elements = ofList vs := by
  induction vs using List.reverseRecOn with
  | nil => rfl
  | append_singleton vs v ih =>
    rw [ofList_concat]
    cases present : (ofList vs).contains v with
    | true =>
      have kept : ((ofList vs).insert v).2 = ofList vs := by rw [insert, if_pos present]
      rw [kept, ih]
    | false =>
      have behind : ((ofList vs).insert v).2.elements = (ofList vs).elements ++ [v] := by
        rw [elements_insert, present, if_neg Bool.false_ne_true]
      rw [behind, ofList_concat, ih]

/-- The union with one more value, which comes last unless it is the same as one that is there. -/
theorem union_singleton (vs : List Value) (v : Value) : (ofList vs).union (ofList [v]) = ofList (vs ++ [v]) :=
  calc (ofList vs).union (ofList [v])
    _ = ofList ((ofList vs).elements ++ [v]) := rfl
    _ = ((ofList (ofList vs).elements).insert v).2 := ofList_concat ..
    _ = ((ofList vs).insert v).2 := by rw [ofList_elements_ofList]
    _ = ofList (vs ++ [v]) := (ofList_concat ..).symm

end Members

/-! ## Expressions -/

namespace Expr

/-- Evaluates expressions from left to right and puts each value into a set at once. -/
def insertAll (s : Members) : List Expr → Eval Members
  | [] => return s
  | e :: es => do
    let v ← e.eval
    insertAll (s.insert v).2 es

theorem insertAll_ofList (vs : List Value) (es : List Expr) :
    insertAll (.ofList vs) es = do return .ofList (vs ++ (← evalAll es)) := by
  induction es generalizing vs with
  | nil => simp [insertAll, evalAll]
  | cons e es ih =>
    simp only [insertAll, evalAll, ← Members.ofList_concat, ih, bind_assoc, pure_bind, List.append_assoc,
      List.singleton_append]

/-- It makes no difference whether a roster puts the values into the set one by one or when it has all of them. -/
theorem eval_roster_eq_insertAll (es : List Expr) : (roster es).eval = do return .set (← insertAll .empty es) := by
  rw [eval, show Members.empty = .ofList [] from rfl, insertAll_ofList]
  simp only [bind_assoc, pure_bind, List.nil_append]

theorem evalAll_concat (es : List Expr) (e : Expr) :
    evalAll (es ++ [e]) = do return (← evalAll es) ++ [← e.eval] := by
  induction es with
  | nil => simp [evalAll]
  | cons first es ih => simp [evalAll, ih]

/-- One more element is one more union. -/
theorem eval_roster_concat (es : List Expr) (e : Expr) (operator : Token) :
    (roster (es ++ [e])).eval = (binary .union operator (roster es) (roster [e])).eval := by
  simp only [eval, evalAll_concat, evalAll, bind_assoc, pure_bind]
  refine bind_congr fun vs => bind_congr fun v => ?_
  rw [← Members.union_singleton]
  rfl

theorem eval_binary_congr_left {left left' : Expr} (h : left.eval = left'.eval) (op : BinaryOp) (operator : Token)
    (right : Expr) : (binary op operator left right).eval = (binary op operator left' right).eval := by
  rw [eval, eval, h]

/-- The union of rosters with one element each, from left to right. Behind the first one, each has the operator in
front of it. -/
def unionOfSingletons (first : Expr) (rest : List (Token × Expr)) : Expr :=
  rest.foldl (fun left (operator, e) => .binary .union operator left (.roster [e])) (.roster [first])

/-- A roster is the union of its singletons. In every environment it ends as this union does, wherever the operators
stand: with the same set, in which the same elements are in the same order, or with the same fault on the same line,
and in the same environment. It is the set into which the values are put one by one, as soon as they are there. -/
theorem eval_roster_eq_union (first : Expr) (rest : List (Token × Expr)) (env : Environment) :
    let elements := first :: rest.map Prod.snd
    (roster elements).eval env = (unionOfSingletons first rest).eval env ∧
      (roster elements).eval env = (do return .set (← insertAll .empty elements) : Eval Value) env := by
  have union : (roster (first :: rest.map Prod.snd)).eval = (unionOfSingletons first rest).eval := by
    induction rest using List.reverseRecOn with
    | nil => rfl
    | append_singleton rest last ih =>
      obtain ⟨operator, e⟩ := last
      calc (roster (first :: (rest ++ [(operator, e)]).map Prod.snd)).eval
        _ = (roster (first :: rest.map Prod.snd ++ [e])).eval := by rw [List.map_append]; rfl
        _ = (binary .union operator (roster (first :: rest.map Prod.snd)) (roster [e])).eval := eval_roster_concat ..
        _ = (binary .union operator (unionOfSingletons first rest) (roster [e])).eval := eval_binary_congr_left ih ..
        _ = (unionOfSingletons first (rest ++ [(operator, e)])).eval := by
          rw [unionOfSingletons, unionOfSingletons, List.foldl_append]
          rfl
  exact ⟨congrFun union env, congrFun (eval_roster_eq_insertAll _) env⟩

end Expr

end SetScript
