import SetScript.Proofs.Number.Nearest
import SetScript.Proofs.Number.Order
/-!
# Counts as numbers

Every natural number below 2^53 is a double, and a count below 2^53 is taken as the number that it is
(`isNatural_ofCount?`). The numbers of two counts are the same, or one is at most the other, just when this is so of the
counts (`IsNatural.same_iff`, `IsNatural.le_iff`).
-/

namespace SetScript.Number

/-- The number is the natural number `n`: it has no sign, it is finite, and its magnitude is `n` times the 2^1074 units
that a one has. -/
structure IsNatural (x : Float) (n : Nat) : Prop where
  positive : isNegative x = false
  finite : isFinite x = true
  value : units (magnitude x) = n <<< 1074

instance (x : Float) (n : Nat) : Decidable (IsNatural x n) :=
  decidable_of_iff (isNegative x = false ∧ isFinite x = true ∧ units (magnitude x) = n <<< 1074)
    ⟨fun ⟨positive, finite, value⟩ => ⟨positive, finite, value⟩, fun h => ⟨h.positive, h.finite, h.value⟩⟩

/-! ## Natural numbers among the doubles -/

theorem units_mul_add {q r : Nat} (hq : 0 < q) (hr : r < binade) :
    units (q * binade + r) = (binade + r) <<< (q - 1) := by
  have exponent : (q * binade + r) / binade = q := by
    rw [Nat.mul_comm, Nat.mul_add_div binade_pos, Nat.div_eq_of_lt hr, Nat.add_zero]
  have fraction : (q * binade + r) % binade = r := by
    rw [Nat.mul_comm, Nat.mul_add_mod, Nat.mod_eq_of_lt hr]
  rw [units, exponent, fraction, if_neg (Nat.pos_iff_ne_zero.mp hq)]

theorem exists_units_eq {n : Nat} (h : n ≤ maxCount) : ∃ b < infinityBits, units b = n <<< 1074 := by
  by_cases hz : n = 0
  · subst hz
    exact ⟨0, by decide, by decide⟩
  · -- The first binary digit of `n` is the implicit one of its binade, and the others follow behind the point.
    have below : 2 ^ n.log2 ≤ n := Nat.log2_self_le hz
    have above : n < 2 ^ (n.log2 + 1) := Nat.lt_log2_self
    have few : n.log2 < 53 := (Nat.log2_lt hz).mpr (Nat.lt_of_le_of_lt h (by decide))
    generalize n.log2 = k at below above few
    have one : 2 ^ k * 2 ^ (52 - k) = binade := by
      rw [← Nat.pow_add, show k + (52 - k) = 52 by omega]
      rfl
    have two : 2 ^ (k + 1) * 2 ^ (52 - k) = binade + binade := by
      rw [Nat.pow_succ, Nat.mul_right_comm, one, Nat.mul_two]
    have lower := Nat.mul_le_mul_right (2 ^ (52 - k)) below
    have upper := Nat.mul_lt_mul_of_pos_right above (Nat.two_pow_pos (52 - k))
    rw [one] at lower
    rw [two] at upper
    obtain ⟨r, hr⟩ := Nat.exists_eq_add_of_le lower
    have small : r < binade := by omega
    refine ⟨(1023 + k) * binade + r, ?_, ?_⟩
    · unfold infinityBits
      have := Nat.mul_le_mul_right binade (show 1023 + k + 1 ≤ 2047 by omega)
      rw [Nat.add_one_mul] at this
      omega
    · rw [units_mul_add (by omega) small, ← hr, Nat.shiftLeft_eq, Nat.shiftLeft_eq, Nat.mul_assoc, ← Nat.pow_add,
        show 52 - k + (1023 + k - 1) = 1074 by omega]

/-- A double is nearest to its own value. -/
theorem nearest_of_units_eq {n b : Nat} (finite : b < infinityBits) (h : units b = n <<< 1074) : nearest n 1 = b := by
  have value : n <<< 1075 = 2 * units b * 1 := by
    rw [h, Nat.shiftLeft_succ]
    omega
  exact nearest_eq Nat.one_pos finite (reaches_of_eq Nat.one_pos value) (not_reaches_succ_of_eq Nat.one_pos value)

theorem isNatural_ofFraction {n : Nat} (h : n ≤ maxCount) : IsNatural (ofFraction n 1) n := by
  obtain ⟨b, finite, hb⟩ := exists_units_eq h
  have size : magnitude (ofFraction n 1) = b := by
    rw [ofFraction, nearest_of_units_eq finite hb, magnitude_ofBits (Nat.le_of_lt finite)]
  refine ⟨isNegative_ofBits (nearest_le n 1), ?_, ?_⟩
  · rw [isFinite, size]
    exact decide_eq_true finite
  · rw [size, hb]

theorem maxCount_eq : maxCount = 2 ^ 53 - 1 := by decide

/-- A count that doubles tell from its neighbours is taken as the number that it is. -/
theorem isNatural_ofCount? {n : Nat} (h : n ≤ 2 ^ 53 - 1) : ∃ x, ofCount? n = some x ∧ IsNatural x n := by
  rw [← maxCount_eq] at h
  exact ⟨ofFraction n 1, if_pos h, isNatural_ofFraction h⟩

theorem ofCount?_eq_none {n : Nat} (h : 2 ^ 53 - 1 < n) : ofCount? n = none := by
  rw [← maxCount_eq] at h
  exact if_neg (Nat.not_le_of_lt h)

/-! ## Their order -/

namespace IsNatural

variable {x y : Float} {n m : Nat}

theorem place_eq (h : IsNatural x n) : place? x = some (magnitude x : Int) := by
  have finite := h.finite
  rw [isFinite, decide_eq_true_eq] at finite
  rw [place?, if_pos (Nat.le_of_lt finite), h.positive, if_neg Bool.false_ne_true]

theorem magnitude_le_iff (hx : IsNatural x n) (hy : IsNatural y m) : magnitude x ≤ magnitude y ↔ n ≤ m := by
  have grows : StrictMono units := strictMono_nat_of_lt_succ units_lt_units_succ
  rw [← grows.le_iff_le, hx.value, hy.value, Nat.shiftLeft_eq, Nat.shiftLeft_eq]
  exact Nat.mul_le_mul_right_iff (Nat.two_pow_pos 1074)

theorem le_iff (hx : IsNatural x n) (hy : IsNatural y m) : le x y = true ↔ n ≤ m := by
  rw [Number.le_iff, hx.place_eq, hy.place_eq, ← hx.magnitude_le_iff hy]
  simp

theorem same_iff (hx : IsNatural x n) (hy : IsNatural y m) : same x y = true ↔ n = m := by
  rw [same_iff_place_eq, hx.place_eq, hy.place_eq, Option.some_inj, Int.natCast_inj, Nat.le_antisymm_iff,
    hx.magnitude_le_iff hy, hy.magnitude_le_iff hx, ← Nat.le_antisymm_iff]

/-- One natural number is one double. -/
theorem eq (hx : IsNatural x n) (hy : IsNatural y n) : x = y := by
  refine eq_of_same ((hx.same_iff hy).mpr rfl) fun zeros => zeros.2.2 ?_
  rw [hx.positive, hy.positive]

end IsNatural

end SetScript.Number
