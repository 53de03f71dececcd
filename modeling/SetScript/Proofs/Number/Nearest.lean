import Mathlib.Logic.Basic
import SetScript.Number.Rounding
/-!
# The double nearest to a fraction

The doubles grow with their bits (`units_lt_units_succ`), so the bits that a fraction reaches are those up to a last
one, and the search for it finds it (`nearest_eq`). Only the value of the fraction counts (`nearest_mul`).
-/

namespace SetScript.Number

theorem binade_pos : 0 < binade := by decide

theorem units_lt_units_succ (b : Nat) : units b < units (b + 1) := by
  have whole := Nat.div_add_mod b binade
  have part := Nat.mod_lt b binade_pos
  unfold units
  generalize hq : b / binade = q at whole ⊢
  generalize hr : b % binade = r at whole part ⊢
  by_cases last : r + 1 = binade
  · have hq' : (b + 1) / binade = q + 1 := by
      rw [← whole, Nat.add_assoc, last, ← Nat.mul_succ, Nat.mul_div_cancel_left _ binade_pos]
    have hr' : (b + 1) % binade = 0 := by
      rw [← whole, Nat.add_assoc, last, ← Nat.mul_succ, Nat.mul_mod_right]
    rw [hq', hr', if_neg (Nat.succ_ne_zero q), Nat.add_sub_cancel, Nat.add_zero]
    split
    · next hz =>
      subst hz
      rw [Nat.shiftLeft_zero]
      omega
    · next hz =>
      obtain ⟨k, rfl⟩ := Nat.exists_eq_succ_of_ne_zero hz
      rw [Nat.succ_sub_one, Nat.shiftLeft_eq, Nat.shiftLeft_eq, Nat.pow_succ, Nat.mul_comm (2 ^ k), ← Nat.mul_assoc]
      exact Nat.mul_lt_mul_of_pos_right (by omega) (Nat.two_pow_pos k)
  · have hq' : (b + 1) / binade = q := by
      rw [← whole, Nat.add_assoc, Nat.mul_add_div binade_pos, Nat.div_eq_of_lt (by omega), Nat.add_zero]
    have hr' : (b + 1) % binade = r + 1 := by
      rw [← whole, Nat.add_assoc, Nat.mul_add_mod, Nat.mod_eq_of_lt (by omega)]
    rw [hq', hr']
    split
    · exact Nat.lt_succ_self b
    · rw [Nat.shiftLeft_eq, Nat.shiftLeft_eq]
      exact Nat.mul_lt_mul_of_pos_right (by omega) (Nat.two_pow_pos _)

/-! ## What a fraction reaches -/

variable {num den : Nat}

/-- What a fraction reaches has no gaps. -/
theorem reaches_of_reaches_succ (hd : 0 < den) {b : Nat} (h : reaches num den (b + 1) = true) :
    reaches num den b = true := by
  cases b with
  | zero => rfl
  | succ b =>
    have below : (units b + units (b + 1)) * den < (units (b + 1) + units (b + 1 + 1)) * den := by
      have := units_lt_units_succ b
      have := units_lt_units_succ (b + 1)
      exact Nat.mul_lt_mul_of_pos_right (by omega) hd
    simp only [reaches, Bool.or_eq_true, Bool.and_eq_true, decide_eq_true_eq, beq_iff_eq] at h ⊢
    omega

theorem reaches_of_le (hd : 0 < den) {b more : Nat} (le : b ≤ more) (h : reaches num den more = true) :
    reaches num den b = true := by
  induction le with
  | refl => exact h
  | step _ ih => exact ih (reaches_of_reaches_succ hd h)

theorem reaches_mul {k : Nat} (hk : 0 < k) (num den b : Nat) : reaches (num * k) (den * k) b = reaches num den b := by
  cases b with
  | zero => rfl
  | succ b =>
    have value : (num * k) <<< 1075 = (num <<< 1075) * k := by
      rw [Nat.shiftLeft_eq, Nat.shiftLeft_eq, Nat.mul_right_comm]
    simp only [reaches, value, ← Nat.mul_assoc, Nat.mul_lt_mul_right hk, beq_eq_decide,
      Nat.mul_left_inj (Nat.pos_iff_ne_zero.mp hk)]

/-- A fraction that is a double, here in halves of a unit, reaches that double. -/
theorem reaches_of_eq (hd : 0 < den) {b : Nat} (h : num <<< 1075 = 2 * units b * den) : reaches num den b = true := by
  cases b with
  | zero => rfl
  | succ b =>
    have below := Nat.mul_lt_mul_of_pos_right
      (show units b + units (b + 1) < 2 * units (b + 1) by have := units_lt_units_succ b; omega) hd
    simp only [reaches, h, below, decide_true, Bool.true_or]

/-- A fraction that is a double does not reach the next one. -/
theorem not_reaches_succ_of_eq (hd : 0 < den) {b : Nat} (h : num <<< 1075 = 2 * units b * den) :
    reaches num den (b + 1) = false := by
  have above := Nat.mul_lt_mul_of_pos_right
    (show 2 * units b < units b + units (b + 1) by have := units_lt_units_succ b; omega) hd
  simp only [reaches, h, Bool.or_eq_false_iff, Bool.and_eq_false_iff, decide_eq_false_iff_not, beq_eq_false_iff_ne]
  exact ⟨Nat.lt_asymm above, .inl (Nat.ne_of_gt above)⟩

/-! ## The search -/

theorem greatest_of {p : Nat → Bool} {b : Nat} (h : p b = true) (n : Nat) : p (greatest p n b) = true := by
  induction n generalizing b with
  | zero => exact h
  | succ n ih =>
    rw [greatest]
    split
    · next hs => exact ih hs
    · exact ih h

/-- For a property without gaps the search finds the last number that has it. -/
theorem greatest_eq {p : Nat → Bool} (noGaps : ∀ {b more}, b ≤ more → p more = true → p b = true) {last : Nat}
    (h : p last = true) (beyond : p (last + 1) = false) {n b : Nat} (from_b : b ≤ last) (to_b : last < b + 1 <<< n) :
    greatest p n b = last := by
  -- Without gaps the property is that of being at most `last`, and each step halves what is left of the range.
  have holds_iff : ∀ b, p b = true ↔ b ≤ last := by
    refine fun b => ⟨fun hb => Nat.le_of_not_lt fun hl => ?_, fun hl => noGaps hl h⟩
    exact absurd (noGaps hl hb) (Bool.eq_false_iff.mp beyond)
  induction n generalizing b with
  | zero =>
    rw [Nat.shiftLeft_zero] at to_b
    rw [greatest]
    omega
  | succ n ih =>
    have double : 1 <<< (n + 1) = 1 <<< n + 1 <<< n := by
      rw [Nat.shiftLeft_succ]
      omega
    rw [greatest]
    split
    · next hp => exact ih ((holds_iff _).mp hp) (by omega)
    · next hp => exact ih from_b (Nat.lt_of_not_le fun hl => hp ((holds_iff _).mpr hl))

/-! ## The nearest double -/

theorem nearest_le (num den : Nat) : nearest num den ≤ infinityBits := by
  have := greatest_of (p := fun b => decide (b ≤ infinityBits) && reaches num den b) (b := 0) rfl 63
  rw [Bool.and_eq_true, decide_eq_true_eq] at this
  exact this.1

/-- A fraction is nearest to the last double that it reaches. -/
theorem nearest_eq (hd : 0 < den) {b : Nat} (finite : b < infinityBits) (h : reaches num den b = true)
    (beyond : reaches num den (b + 1) = false) : nearest num den = b := by
  refine greatest_eq (fun le hm => ?_) ?_ ?_ (Nat.zero_le b) ?_
  · rw [Bool.and_eq_true, decide_eq_true_eq] at hm ⊢
    exact ⟨Nat.le_trans le hm.1, reaches_of_le hd le hm.2⟩
  · simp [h, Nat.le_of_lt finite]
  · simp [beyond]
  · rw [Nat.zero_add]
    exact Nat.lt_trans finite (by decide)

/-- Equal fractions are nearest to the same double. -/
theorem nearest_mul {k : Nat} (hk : 0 < k) (num den : Nat) : nearest (num * k) (den * k) = nearest num den := by
  simp only [nearest, reaches_mul hk]

end SetScript.Number
