import Mathlib
import SetScript.Number.Order
import SetScript.Proofs.Number.Bits
/-!
# Choosing the first of some numbers

`lesser` and `greater` choose between two numbers by an order, and NaN gives way (`prefers_lesser`, `prefers_greater`).
Going through some numbers with such a choice gives one that comes before all others, wherever it starts
(`Prefers.isExtreme_foldl`). Which zero is taken if both are there is left open: numbers with the same extremes have the
same place (`IsExtreme.same`), and numbers with the same place are identical but for the zeros
(`eq_of_same`).
-/

namespace SetScript.Number

/-! ## Same numbers -/

/-- Both are zero, and one of them has a sign. -/
def OppositeZeros (x y : Float) : Prop := magnitude x = 0 ∧ magnitude y = 0 ∧ isNegative x ≠ isNegative y

/-- Same numbers are identical, but for the zeros. -/
theorem eq_of_same {x y : Float} (h : same x y = true) (zeros : ¬ OppositeZeros x y) : x = y := by
  simp only [same, Bool.or_eq_true, Bool.and_eq_true, beq_iff_eq, decide_eq_true_eq] at h
  rcases h with ⟨size, sign⟩ | ⟨hx, hy⟩
  · have sign : isNegative x = isNegative y := by
      rcases sign with zero | sign
      · exact Decidable.not_not.mp fun differ => zeros ⟨zero, size ▸ zero, differ⟩
      · exact sign
    have size : x.toBits.toNat % 2 ^ 63 = y.toBits.toNat % 2 ^ 63 := by
      rw [toNat_toBits_mod, toNat_toBits_mod, size]
    simp only [isNegative, decide_eq_decide, UInt64.le_iff_toNat_le] at sign
    have := x.toBits.toNat_lt
    have := y.toBits.toNat_lt
    have half : (0x8000000000000000 : UInt64).toNat = 2 ^ 63 := rfl
    apply Float.toBits_inj.mp
    apply UInt64.toNat_inj.mp
    omega
  · apply Float.toBits_inj.mp
    rw [toBits_of_infinityBits_lt hx, toBits_of_infinityBits_lt hy]

/-! ## An order and a choice -/

/-- A choice between two numbers goes by an order of the numbers on the line: of two such numbers it takes one that
comes before the other, and NaN gives way to the other number. It is left open which of two numbers with one place is
taken. -/
structure Prefers (before : Float → Float → Bool) (pick : Float → Float → Float) : Prop where
  refl : ∀ {x}, place? x ≠ none → before x x = true
  trans : ∀ {x y z}, before x y = true → before y z = true → before x z = true
  antisymm : ∀ {x y}, before x y = true → before y x = true → place? x = place? y
  congr : ∀ {x y z}, place? y = place? z → before x y = before x z
  skips_left : ∀ {x y}, place? x = none → pick x y = y
  skips_right : ∀ {x y}, place? x ≠ none → place? y = none → pick x y = x
  takes : ∀ {x y}, place? x ≠ none → place? y ≠ none →
    pick x y = x ∧ before x y = true ∨ pick x y = y ∧ before y x = true

theorem le_iff {x y : Float} : le x y = true ↔ ∃ i j, place? x = some i ∧ place? y = some j ∧ i ≤ j := by
  unfold le compareBy
  cases place? x <;> cases place? y <;> simp

theorem prefers_lesser : Prefers le lesser where
  refl h := by
    obtain ⟨i, hi⟩ := Option.ne_none_iff_exists'.mp h
    exact le_iff.mpr ⟨i, i, hi, hi, Int.le_refl i⟩
  trans h h' := by
    simp only [le_iff] at h h' ⊢
    obtain ⟨i, j, hx, hy, hij⟩ := h
    obtain ⟨j', k, hy', hz, hjk⟩ := h'
    obtain rfl : j = j' := Option.some.inj (hy.symm.trans hy')
    exact ⟨i, k, hx, hz, Int.le_trans hij hjk⟩
  antisymm h h' := by
    simp only [le_iff] at h h'
    obtain ⟨i, j, hx, hy, hij⟩ := h
    obtain ⟨j', i', hy', hx', hji⟩ := h'
    obtain rfl : j = j' := Option.some.inj (hy.symm.trans hy')
    obtain rfl : i = i' := Option.some.inj (hx.symm.trans hx')
    rw [hx, hy, Int.le_antisymm hij hji]
  congr h := by
    rw [Bool.eq_iff_iff, le_iff, le_iff, h]
  skips_left h := by simp [lesser, h]
  skips_right {x y} h h' := by
    obtain ⟨i, hi⟩ := Option.ne_none_iff_exists'.mp h
    simp [lesser, hi, h']
  takes {x y} h h' := by
    obtain ⟨i, hi⟩ := Option.ne_none_iff_exists'.mp h
    obtain ⟨j, hj⟩ := Option.ne_none_iff_exists'.mp h'
    simp only [lesser, hi, hj, le_iff]
    by_cases hij : i ≤ j
    · exact .inl ⟨if_pos hij, i, j, rfl, rfl, hij⟩
    · exact .inr ⟨if_neg hij, j, i, rfl, rfl, by omega⟩

theorem prefers_greater : Prefers (fun x y => le y x) greater where
  refl h := prefers_lesser.refl h
  trans h h' := prefers_lesser.trans h' h
  antisymm h h' := prefers_lesser.antisymm h' h
  congr h := by
    rw [Bool.eq_iff_iff, le_iff, le_iff, h]
  skips_left h := by simp [greater, h]
  skips_right {x y} h h' := by
    obtain ⟨i, hi⟩ := Option.ne_none_iff_exists'.mp h
    simp [greater, hi, h']
  takes {x y} h h' := by
    obtain ⟨i, hi⟩ := Option.ne_none_iff_exists'.mp h
    obtain ⟨j, hj⟩ := Option.ne_none_iff_exists'.mp h'
    simp only [greater, hi, hj, le_iff]
    by_cases hji : j ≤ i
    · exact .inl ⟨if_pos hji, j, i, rfl, rfl, hji⟩
    · exact .inr ⟨if_neg hji, i, j, rfl, rfl, by omega⟩

/-! ## The first of some numbers -/

/-- One of some numbers comes before all those that are not NaN, and it is NaN only if all of them are. -/
structure IsExtreme (before : Float → Float → Bool) (xs : List Float) (z : Float) : Prop where
  mem : z ∈ xs
  first : ∀ x ∈ xs, place? x ≠ none → before z x = true
  nan : place? z = none → ∀ x ∈ xs, place? x = none

section Choice

variable {before : Float → Float → Bool} {pick : Float → Float → Float} (h : Prefers before pick)
  {xs ys : List Float} {x y z w : Float}
include h

/-- A number more does not count if it is NaN, or if it comes behind one that is there already. -/
theorem IsExtreme.insert (he : IsExtreme before xs z)
    (behind : place? y = none ∨ ∃ x ∈ xs, place? x ≠ none ∧ before x y = true) : IsExtreme before (y :: xs) z where
  mem := List.mem_cons_of_mem y he.mem
  first x hx hn := by
    rcases List.mem_cons.mp hx with rfl | hx
    · rcases behind with none | ⟨w, hw, hwn, hwx⟩
      · exact absurd none hn
      · exact h.trans (he.first w hw hwn) hwx
    · exact he.first x hx hn
  nan none x hx := by
    rcases List.mem_cons.mp hx with rfl | hx
    · rcases behind with none | ⟨w, hw, hwn, -⟩
      · exact none
      · exact absurd (he.nan none w hw) hwn
    · exact he.nan none x hx

theorem IsExtreme.of_pick (he : IsExtreme before (pick x y :: xs) z) : IsExtreme before (x :: y :: xs) z := by
  have swap : IsExtreme before (y :: x :: xs) z → IsExtreme before (x :: y :: xs) z := fun he =>
    have alike : ∀ w, w ∈ x :: y :: xs ↔ w ∈ y :: x :: xs := fun w => (List.Perm.swap y x xs).mem_iff
    ⟨(alike z).mpr he.mem, fun w hw => he.first w ((alike w).mp hw), fun none w hw => he.nan none w ((alike w).mp hw)⟩
  by_cases hx : place? x = none
  · rw [h.skips_left hx] at he
    exact he.insert h (.inl hx)
  · by_cases hy : place? y = none
    · rw [h.skips_right hx hy] at he
      exact swap (he.insert h (.inl hy))
    · rcases h.takes hx hy with ⟨taken, hxy⟩ | ⟨taken, hyx⟩
      · rw [taken] at he
        exact swap (he.insert h (.inr ⟨x, List.mem_cons_self, hx, hxy⟩))
      · rw [taken] at he
        exact he.insert h (.inr ⟨y, List.mem_cons_self, hy, hyx⟩)

/-- Going through some numbers, each time with the number taken so far, ends with the first one. -/
theorem Prefers.isExtreme_foldl (x : Float) (xs : List Float) : IsExtreme before (x :: xs) (xs.foldl pick x) := by
  induction xs generalizing x with
  | nil =>
    refine ⟨List.mem_cons_self, fun y hy hn => ?_, fun none y hy => ?_⟩
    · obtain rfl := List.mem_singleton.mp hy
      exact h.refl hn
    · obtain rfl := List.mem_singleton.mp hy
      exact none
  | cons y xs ih => exact (ih (pick x y)).of_pick h

/-- A number that comes before some numbers has the place of any that comes before the same numbers. -/
theorem IsExtreme.same (he : IsExtreme before xs z) (he' : IsExtreme before ys w)
    (forth : ∀ x ∈ xs, ∃ y ∈ ys, Number.same x y = true) (back : ∀ y ∈ ys, ∃ x ∈ xs, Number.same y x = true) :
    Number.same z w = true := by
  simp only [same_iff_place_eq] at forth back ⊢
  obtain ⟨y, hy, hzy⟩ := forth z he.mem
  obtain ⟨x, hx, hwx⟩ := back w he'.mem
  by_cases hz : place? z = none
  · rw [hz, hwx, he.nan hz x hx]
  · by_cases hw : place? w = none
    · rw [hw, hzy, he'.nan hw y hy]
    · have zw : before z w = true := by
        rw [h.congr hwx]
        exact he.first x hx (hwx ▸ hw)
      have wz : before w z = true := by
        rw [h.congr hzy]
        exact he'.first y hy (hzy ▸ hz)
      exact h.antisymm zw wz

end Choice

end SetScript.Number
