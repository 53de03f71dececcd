import SetScript.Proofs.Value.Membership
/-!
# The order of elements

What the operations make of the lists of elements: a new element comes behind the others, and of same values the first
one stays. This holds of any sets for `insert` and `ofList`; for `union` and `inter` it rests on sets that have no two
same elements already (`WellFormed.elements_union`, `WellFormed.elements_inter`).
-/

namespace SetScript

/-- Nothing is dropped from a list in which no value is the same as one before it. -/
theorem eraseDupsBy_same_eq_self {vs : List Value} (h : vs.Pairwise fun v w => w.same v = false) :
    vs.eraseDupsBy Value.same = vs := by
  induction vs with
  | nil => rfl
  | cons v vs ih =>
    obtain ⟨differ, h⟩ := List.pairwise_cons.mp h
    have all : vs.filter (fun w => decide (w.same v = false)) = vs :=
      List.filter_eq_self.mpr fun w hw => decide_eq_true (differ w hw)
    rw [List.eraseDupsBy_cons, all, ih h]

namespace Members

variable {s t : Members}

/-! ## Inserting and collecting -/

theorem elements_insert (s : Members) (v : Value) :
    (s.insert v).2.elements = if s.contains v then s.elements else s.elements ++ [v] := by
  unfold insert
  split <;> rfl

theorem isNew_insert (s : Members) (v : Value) : (s.insert v).1 = !s.contains v := by
  unfold insert
  cases s.contains v <;> rfl

theorem contains_insert_of_absent {v : Value} (absent : s.contains v = false) (w : Value) :
    (s.insert v).2.contains w = (w.same v || s.contains w) := by
  rw [insert, absent]
  rfl

/-- Values that are put into a set come behind its elements: the first of each group of same values, if it is not
there already. -/
theorem elements_foldl_insert (s : Members) (vs : List Value) :
    (vs.foldl (fun s v => (s.insert v).2) s).elements =
      s.elements ++ (vs.filter fun v => !s.contains v).eraseDupsBy Value.same := by
  induction vs generalizing s with
  | nil => simp [List.eraseDupsBy, List.eraseDupsBy.loop]
  | cons v vs ih =>
    rw [List.foldl_cons, ih]
    cases h : s.contains v with
    | true => simp [insert, h]
    | false =>
      have left : (vs.filter fun w => !(s.insert v).2.contains w) =
          (vs.filter fun w => !s.contains w).filter fun w => decide (w.same v = false) := by
        rw [List.filter_filter]
        refine List.filter_congr fun w _ => ?_
        rw [contains_insert_of_absent h]
        cases w.same v <;> rfl
      rw [elements_insert, left]
      simp [h, List.eraseDupsBy_cons]

/-- Collecting keeps the first of each group of same values, in order. -/
theorem elements_ofList (vs : List Value) : (ofList vs).elements = vs.eraseDupsBy Value.same := by
  have all : (vs.filter fun v => !empty.contains v) = vs := List.filter_eq_self.mpr fun v _ => rfl
  rw [ofList, elements_foldl_insert, all]
  rfl

/-! ## Union and intersection -/

/-- The index knows what the list holds. -/
theorem Sound.contains_eq_any (hs : s.Sound) (v : Value) : s.contains v = s.elements.any v.same :=
  hs.indexed.any_eq

/-- No element is the same as one before it. -/
theorem WellFormed.pairwise_elements (hs : s.WellFormed) : s.elements.Pairwise fun v w => w.same v = false := by
  refine hs.distinct.imp_of_mem fun {v w} hv hw differ => Bool.eq_false_iff.mpr fun same => ?_
  rw [(hs.elements w hw).symm (hs.elements v hv) same] at differ
  cases differ

/-- The elements of `s`, and behind them those of `t` that are not in `s`. -/
theorem WellFormed.elements_union (hs : s.WellFormed) (ht : t.WellFormed) :
    (s.union t).elements = s.elements ++ t.elements.filter fun v => !s.elements.any v.same := by
  have front : (ofList s.elements).elements = s.elements :=
    (elements_ofList _).trans (eraseDupsBy_same_eq_self hs.pairwise_elements)
  have known : ∀ v : Value, (ofList s.elements).contains v = s.elements.any v.same := fun v => by
    rw [(wellFormed_ofList hs.elements).contains_eq_any, front]
  have new := ht.pairwise_elements.filter fun v => !s.elements.any v.same
  rw [Members.union, ofList, List.foldl_append, ← ofList, elements_foldl_insert, front]
  simp only [known, eraseDupsBy_same_eq_self new]

/-- The elements of `s` that are in `t`, in their order. -/
theorem WellFormed.elements_inter (hs : s.WellFormed) (ht : t.WellFormed) :
    (s.inter t).elements = s.elements.filter fun v => t.elements.any v.same := by
  rw [Members.inter, elements_ofList, eraseDupsBy_same_eq_self (hs.pairwise_elements.filter _)]
  exact List.filter_congr fun v _ => ht.contains_eq_any v

/-- Inclusion asks for each element whether the other list holds it. -/
theorem Sound.subset_eq_all (ht : t.Sound) (s : Members) :
    s.subset t = s.elements.all fun v => t.elements.any v.same := by
  rw [subset, funext ht.contains_eq_any]

end Members

end SetScript
