import Mathlib
import SetScript.Number.Text
import SetScript.Proofs.Number.Bits
import SetScript.Proofs.Number.Nearest
/-!
# The text of a number

A finite number without a sign is written with digits and at most one point, between digits (`isDecimal_text`), and
what is written reads back as the same number (`read_text`). What is read never has a sign
(`isNegative_read`).
-/

namespace SetScript.Number

/-! ## The decimal that is written -/

theorem pow_ten (n : Nat) : Nat.pow 10 n = 10 ^ n := rfl

theorem pow_ten_pos (n : Nat) : 0 < Nat.pow 10 n := Nat.pow_pos (by decide)

theorem decimalOne_pos : 0 < decimalOne := by
  unfold decimalOne
  exact pow_ten_pos exactPlaces

theorem decimalOne_eq : decimalOne = 10 ^ exactPlaces := by
  unfold decimalOne
  rw [pow_ten]

theorem mod_decimalOne_lt (v : Nat) : v % decimalOne < 10 ^ exactPlaces := by
  rw [← decimalOne_eq]
  exact Nat.mod_lt v decimalOne_pos

/-- In halves of the unit that `reaches` counts in, the exact decimal is twice the double. -/
theorem exactDecimal_shiftLeft (b : Nat) : exactDecimal b <<< (exactPlaces + 1) = 2 * units b * decimalOne := by
  unfold exactDecimal decimalOne
  generalize exactPlaces = n
  have tens : Nat.pow 10 n = Nat.pow 5 n * 2 ^ n := Nat.mul_pow 5 2 n
  rw [tens, Nat.shiftLeft_eq, Nat.pow_succ]
  ring

theorem readsBack_exactDecimal (b : Nat) : readsBack b (exactDecimal b) = true := by
  have value : exactDecimal b <<< 1075 = 2 * units b * decimalOne := exactDecimal_shiftLeft b
  rw [readsBack, Bool.and_eq_true, Bool.not_eq_true']
  exact ⟨reaches_of_eq decimalOne_pos value, not_reaches_succ_of_eq decimalOne_pos value⟩

theorem readsBack_of_neighbour? {b j v : Nat} (h : neighbour? b j = some v) : readsBack b v = true := by
  simp only [neighbour?] at h
  generalize exactDecimal b / Nat.pow 10 j * Nat.pow 10 j = below at h
  generalize exactDecimal b - below = distance, Nat.pow 10 j = step at h
  cases hb : readsBack b below <;> cases ha : readsBack b (below + step) <;> simp only [hb, ha] at h
  · cases h
  · rw [← Option.some.inj h, ha]
  · rw [← Option.some.inj h, hb]
  · rw [← Option.some.inj h]
    split
    · rw [hb]
    · rw [ha]

/-- What is written rounds to the number that it is written for. -/
theorem readsBack_coarsest (b j : Nat) : readsBack b (coarsest b j) = true := by
  induction j with
  | zero => exact readsBack_exactDecimal b
  | succ j ih =>
    rw [coarsest]
    cases h : neighbour? b j with
    | none => exact ih
    | some v => exact readsBack_of_neighbour? h

theorem nearest_shortest {b : Nat} (finite : b < infinityBits) : nearest (shortest b) decimalOne = b := by
  have back := readsBack_coarsest b ((exactDecimal b).log2 * 30104 / 100000 + 3)
  rw [readsBack, Bool.and_eq_true, Bool.not_eq_true'] at back
  exact nearest_eq decimalOne_pos finite back.1 back.2

/-! ## Its digits -/

theorem digitsValue_eq (digits : List Char) : digitsValue digits = Nat.ofDigitChars 10 digits 0 := rfl

theorem digitsValue_append (front behind : List Char) :
    digitsValue (front ++ behind) = digitsValue front * 10 ^ behind.length + digitsValue behind := by
  rw [digitsValue_eq, Nat.ofDigitChars_append, Nat.ofDigitChars_eq_ofDigitChars_zero, Nat.mul_comm]
  rfl

theorem digitsValue_toDigits (n : Nat) : digitsValue (Nat.toDigits 10 n) = n := Nat.ofDigitChars_ten_toDigits

theorem digitsValue_digitChar_cons {d : Nat} (h : d < 10) (digits : List Char) :
    digitsValue (Nat.digitChar d :: digits) = d * 10 ^ digits.length + digitsValue digits := by
  have one : digitsValue [Nat.digitChar d] = d := by
    rw [digitsValue_eq, Nat.ofDigitChars_cons_digitChar_of_lt_ten h]
    simp
  rw [← List.singleton_append, digitsValue_append, one]

theorem all_isDigit_fractionDigits {n r : Nat} (h : r < 10 ^ n) : (fractionDigits n r).all Char.isDigit = true := by
  induction n generalizing r with
  | zero => rfl
  | succ n ih =>
    have lead : r / 10 ^ n < 10 := Nat.div_lt_of_lt_mul (by rwa [Nat.pow_succ] at h)
    rw [fractionDigits, pow_ten]
    split
    · rfl
    · rw [List.all_cons, Bool.and_eq_true]
      exact ⟨Nat.isDigit_digitChar.trans (decide_eq_true lead), ih (Nat.mod_lt r (pow_ten_pos n))⟩

/-- The digits behind the point are those of `r` without the zeros at the end. -/
theorem digitsValue_fractionDigits {n r : Nat} (h : r < 10 ^ n) :
    ∃ zeros, (fractionDigits n r).length + zeros = n ∧ digitsValue (fractionDigits n r) * 10 ^ zeros = r := by
  induction n generalizing r with
  | zero => exact ⟨0, rfl, (Nat.lt_one_iff.mp h).symm⟩
  | succ n ih =>
    have lead : r / 10 ^ n < 10 := Nat.div_lt_of_lt_mul (by rwa [Nat.pow_succ] at h)
    rw [fractionDigits, pow_ten]
    split
    · next hz => exact ⟨n + 1, Nat.zero_add _, by rw [hz]; exact Nat.zero_mul _⟩
    · obtain ⟨zeros, length, value⟩ := ih (Nat.mod_lt r (pow_ten_pos n))
      refine ⟨zeros, by rw [List.length_cons]; omega, ?_⟩
      rw [digitsValue_digitChar_cons lead, Nat.add_mul, value, Nat.mul_assoc, ← Nat.pow_add, length,
        Nat.mul_comm, Nat.div_add_mod]

/-- Digits behind a point, or nothing at all. -/
def behindPoint (fraction : List Char) : List Char := if fraction = [] then [] else '.' :: fraction

/-- Digits, and a point only where digits follow. -/
def IsDecimal (cs : List Char) : Prop :=
  ∃ whole fraction, whole ≠ [] ∧ whole.all Char.isDigit = true ∧ fraction.all Char.isDigit = true ∧
    cs = whole ++ behindPoint fraction

theorem positional_eq (v : Nat) :
    positional v =
      Nat.toDigits 10 (v / decimalOne) ++ behindPoint (fractionDigits exactPlaces (v % decimalOne)) := by
  simp only [positional, behindPoint]
  cases fractionDigits exactPlaces (v % decimalOne) with
  | nil => exact (List.append_nil _).symm
  | cons c digits => rfl

theorem isDecimal_positional (v : Nat) : IsDecimal (positional v) := by
  refine ⟨_, _, Nat.toDigits_ne_nil, ?_, ?_, positional_eq v⟩
  · exact List.all_eq_true.mpr fun c hc => Nat.isDigit_of_mem_toDigits (by decide) (by decide) hc
  · exact all_isDigit_fractionDigits (mod_decimalOne_lt v)

/-! ## Reading -/

theorem ne_point_of_isDigit {c : Char} (h : c.isDigit = true) : (c != '.') = true := by
  rw [bne_iff_ne]
  rintro rfl
  cases h

theorem read_append_behindPoint {whole fraction : List Char} (h : whole.all Char.isDigit = true) :
    read (whole ++ behindPoint fraction) =
      ofFraction (digitsValue (whole ++ fraction)) (Nat.pow 10 fraction.length) := by
  have digits : ∀ c ∈ whole, (c != '.') = true := fun c hc => ne_point_of_isDigit (List.all_eq_true.mp h c hc)
  unfold read behindPoint
  rw [List.takeWhile_append_of_pos digits, List.dropWhile_append_of_pos digits]
  split
  · next hf => simp [hf]
  · simp

theorem nearest_positional {b : Nat} (finite : b < infinityBits) :
    ∃ whole fraction, whole.all Char.isDigit = true ∧ positional (shortest b) = whole ++ behindPoint fraction ∧
      nearest (digitsValue (whole ++ fraction)) (Nat.pow 10 fraction.length) = b := by
  generalize hv : shortest b = v
  obtain ⟨zeros, length, value⟩ := digitsValue_fractionDigits (mod_decimalOne_lt v)
  refine ⟨_, _, ?_, positional_eq v, ?_⟩
  · exact List.all_eq_true.mpr fun c hc => Nat.isDigit_of_mem_toDigits (by decide) (by decide) hc
  · generalize fractionDigits exactPlaces (v % decimalOne) = fraction at length value ⊢
    -- The zeros that are not written make the fraction one with the denominator `decimalOne`.
    have den : Nat.pow 10 fraction.length * 10 ^ zeros = decimalOne := by
      rw [pow_ten, ← Nat.pow_add, length, decimalOne_eq]
    have num : digitsValue (Nat.toDigits 10 (v / decimalOne) ++ fraction) * 10 ^ zeros = v := by
      rw [digitsValue_append, digitsValue_toDigits, Nat.add_mul, value, Nat.mul_assoc, ← pow_ten, den, Nat.mul_comm,
        Nat.div_add_mod]
    rw [← nearest_mul (pow_ten_pos zeros), pow_ten zeros, num, den, ← hv, nearest_shortest finite]

/-! ## Signs -/

theorem isNegative_ofFraction (num den : Nat) : isNegative (ofFraction num den) = false :=
  isNegative_ofBits (nearest_le num den)

/-- A decimal has no sign. -/
theorem isNegative_read (decimal : List Char) : isNegative (read decimal) = false := isNegative_ofFraction ..

variable {x : Float}

theorem toList_text (finite : isFinite x = true) (h : isNegative x = false) :
    (text x).toList = positional (shortest (magnitude x)) := by
  have small : magnitude x < infinityBits := by rwa [isFinite, decide_eq_true_eq] at finite
  rw [text, h, Bool.false_and, if_neg Bool.false_ne_true, magnitudeText, if_neg (Nat.lt_asymm small),
    if_neg (Nat.ne_of_lt small), String.toList_ofList]

theorem isDecimal_text (finite : isFinite x = true) (h : isNegative x = false) : IsDecimal (text x).toList := by
  rw [toList_text finite h]
  exact isDecimal_positional _

/-- The text of a number reads back as the number. -/
theorem read_text (finite : isFinite x = true) (h : isNegative x = false) : read (text x).toList = x := by
  have small : magnitude x < infinityBits := by rwa [isFinite, decide_eq_true_eq] at finite
  obtain ⟨whole, fraction, digits, written, value⟩ := nearest_positional small
  rw [toList_text finite h, written, read_append_behindPoint digits, ofFraction, value, ofBits_magnitude h]

end SetScript.Number
