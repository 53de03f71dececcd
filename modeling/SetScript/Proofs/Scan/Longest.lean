import SetScript.Piece
/-!
# What stands behind a piece of text

How far a lexical class reaches is decided by a text up to a character that the class cannot take. So a text is
divided in the same way whatever stands behind such a character. This is stated for each class on its own, and for
the choice among all of them in `longest_congr`.
-/

namespace SetScript

variable {p : Char → Bool} {c : Char}

/-! ## Runs -/

theorem runLength_append_cons (h : p c = false) (a b : List Char) : runLength p (a ++ c :: b) = runLength p a := by
  unfold runLength
  induction a with
  | nil => simp [h]
  | cons x a ih => by_cases hx : p x = true <;> simp [hx, ih]

theorem runLength_append_of_all {a : List Char} (h : a.all p = true) (b : List Char) :
    runLength p (a ++ b) = a.length + runLength p b := by
  unfold runLength
  rw [List.takeWhile_append_of_pos (by simpa using h), List.length_append]

theorem runLength_le (p : Char → Bool) (a : List Char) : runLength p a ≤ a.length :=
  (List.takeWhile_prefix p).length_le

theorem runLength_of_all {a : List Char} (h : a.all p = true) : runLength p a = a.length := by
  simpa [runLength] using runLength_append_of_all h []

/-! ## Classes, one by one -/

/-- A fixed spelling does not reach over a character that it has at most in front. -/
theorem isPrefixOf_append_cons {spelling a : List Char} (ha : a ≠ []) (hc : c ∉ spelling.drop 1) (b : List Char) :
    spelling.isPrefixOf (a ++ c :: b) = spelling.isPrefixOf a := by
  rw [Bool.eq_iff_iff, List.isPrefixOf_iff_prefix, List.isPrefixOf_iff_prefix]
  refine ⟨fun h => ?_, fun h => h.trans (List.prefix_append _ _)⟩
  rcases List.prefix_or_prefix_of_prefix h (List.prefix_append a (c :: b)) with hs | ⟨t, rfl⟩
  · exact hs
  · cases t with
    | nil => simp
    | cons x t =>
      obtain ⟨y, a, rfl⟩ := List.exists_cons_of_ne_nil ha
      obtain rfl : x = c := by
        obtain ⟨r, hr⟩ := h
        simp only [List.append_assoc, List.append_cancel_left_eq, List.cons_append, List.cons.injEq,
          true_and] at hr
        exact hr.1
      simp at hc

theorem numberReach_append_cons (hd : c.isDigit = false) (hp : c ≠ '.') (a b : List Char) :
    numberReach (a ++ c :: b) = numberReach a := by
  simp only [numberReach, runLength_append_cons hd, List.drop_append_of_le_length (runLength_le _ a)]
  cases h : a.drop (runLength Char.isDigit a) with
  | nil =>
    rw [List.nil_append]
    split
    · next h => exact absurd (List.cons.inj h).1 hp
    · rfl
  | cons x rest =>
    rw [List.cons_append]
    by_cases hx : x = '.'
    · subst hx
      simp only [runLength_append_cons hd]
    · split
      · next h => exact absurd (List.cons.inj h).1 hx
      · split
        · next h => exact absurd (List.cons.inj h).1 hx
        · rfl

theorem identifierReach_append_cons (hc : isNamePart c = false) {a : List Char} (ha : a ≠ []) (b : List Char) :
    identifierReach (a ++ c :: b) = identifierReach a := by
  obtain ⟨x, a, rfl⟩ := List.exists_cons_of_ne_nil ha
  simp only [List.cons_append, identifierReach, runLength_append_cons hc]

/-! ## The longest class -/

/-- One class against the best of those before it: it must reach further to take its place. -/
def better (cs : List Char) (best : Option Class × Nat) (cls : Class) : Option Class × Nat :=
  if best.2 < cls.reach cs then (some cls, cls.reach cs) else best

theorem longest_eq (cs : List Char) : longest cs = Class.all.foldl (better cs) (none, 0) := rfl

/-- The choice of the longest class only depends on how far the classes reach. -/
theorem longest_congr {a b : List Char} (h : ∀ cls ∈ Class.all, cls.reach a = cls.reach b) : longest a = longest b := by
  -- The induction is on the classes that are still to be compared, from any best one so far.
  have all : ∀ (classes : List Class) (best : Option Class × Nat), (∀ cls ∈ classes, cls.reach a = cls.reach b) →
      classes.foldl (better a) best = classes.foldl (better b) best := by
    intro classes
    induction classes with
    | nil => exact fun _ _ => rfl
    | cons cls classes ih =>
      intro best h
      rw [List.forall_mem_cons] at h
      rw [List.foldl_cons, List.foldl_cons, better, better, h.1, ih _ h.2]
  rw [longest_eq, longest_eq]
  exact all Class.all (none, 0) h

/-! ## No class reaches beyond the text -/

theorem numberReach_le (cs : List Char) : numberReach cs ≤ cs.length := by
  have whole := runLength_le Char.isDigit cs
  simp only [numberReach]
  split
  · next rest h =>
    have fraction := runLength_le Char.isDigit rest
    have := congrArg List.length h
    simp only [List.length_drop, List.length_cons] at this
    split
    · omega
    · split <;> omega
  · exact whole

theorem Kind.reach_le (kind : Kind) (cs : List Char) : kind.reach cs ≤ cs.length := by
  unfold reach
  split
  · next spelling _ =>
    split
    · next h => exact (List.isPrefixOf_iff_prefix.mp h).length_le
    · exact Nat.zero_le _
  · split
    · exact numberReach_le cs
    · unfold stringReach
      split
      · next rest =>
        simp only [List.length_cons]
        split <;> omega
      · exact Nat.zero_le _
    · unfold openStringReach
      split
      · next rest => have := runLength_le (· != '"') rest; simp only [List.length_cons]; omega
      · exact Nat.zero_le _
    · unfold identifierReach
      split
      · next c rest =>
        have := runLength_le isNamePart rest
        simp only [List.length_cons]
        split <;> omega
      · exact Nat.zero_le _
    · unfold commentReach
      split
      · next rest => have := runLength_le (· != '\n') rest; simp only [List.length_cons]; omega
      · exact Nat.zero_le _
    · exact Nat.zero_le _

theorem Class.reach_le (cls : Class) (cs : List Char) : cls.reach cs ≤ cs.length := by
  cases cls with
  | blanks => exact runLength_le isBlank cs
  | token kind => exact kind.reach_le cs

/-- What the choice gives is one of the classes, with its reach, or none. -/
theorem longest_cases (cs : List Char) :
    longest cs = (none, 0) ∨ ∃ cls ∈ Class.all, 0 < cls.reach cs ∧ longest cs = (some cls, cls.reach cs) := by
  have all : ∀ (classes : List Class) (best : Option Class × Nat), classes ⊆ Class.all →
      (best = (none, 0) ∨ ∃ cls ∈ Class.all, 0 < cls.reach cs ∧ best = (some cls, cls.reach cs)) →
      (classes.foldl (better cs) best = (none, 0) ∨
        ∃ cls ∈ Class.all, 0 < cls.reach cs ∧ classes.foldl (better cs) best = (some cls, cls.reach cs)) := by
    intro classes
    induction classes with
    | nil => exact fun _ _ h => h
    | cons cls classes ih =>
      intro best sub h
      rw [List.cons_subset] at sub
      refine ih _ sub.2 ?_
      unfold better
      split
      · exact .inr ⟨cls, sub.1, by omega, rfl⟩
      · exact h
  rw [longest_eq]
  exact all Class.all (none, 0) (List.Subset.refl _) (.inl rfl)

theorem longest_le (cs : List Char) : (longest cs).2 ≤ cs.length := by
  rcases longest_cases cs with h | ⟨cls, -, -, h⟩ <;> rw [h]
  · exact Nat.zero_le _
  · exact cls.reach_le cs

end SetScript
