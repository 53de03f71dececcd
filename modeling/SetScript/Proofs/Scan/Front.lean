import SetScript.Proofs.Number.Text
import SetScript.Proofs.Scan.Newline
/-!
# What is taken at the front of a text

A digit begins a number and a quote a string. A sign or a word is taken as a whole if no character that joins it
stands behind it, and a name up to the first character that is no part of it (`longest_sign`, `longest_word`,
`longest_name_append`).
-/

namespace SetScript

open Number

variable {x : Char} {rest : List Char}

/-- No character, or one with property `p`, stands in front. -/
def StartsWith (p : Char → Bool) (cs : List Char) : Prop := ∀ c ∈ cs.head?, p c = true

/-- A character that begins something of its own behind a token of this kind. -/
def Kind.isApart (kind : Kind) (c : Char) : Bool :=
  match kind with
  | .equal | .bang | .less | .greater => c != '='
  | .slash => c != '/'
  | .number => !c.isDigit && c != '.'
  | .subseteqWord | .inWord | .unionWord | .intersectWord | .letWord | .defWord | .printWord | .trueWord | .falseWord
  | .identifier => !isNamePart c
  | _ => true

theorem startsWith_of_runLength {p : Char → Bool} {a : List Char} (h : runLength p (a ++ rest) = a.length) :
    StartsWith (fun c => !p c) rest := by
  intro c hc
  obtain ⟨more, rfl⟩ := List.head?_eq_some_iff.mp hc
  have run : (a ++ c :: more).takeWhile p = a :=
    (List.prefix_of_prefix_length_le (List.takeWhile_prefix p) (List.prefix_append _ _) (Nat.le_of_eq h)).eq_of_length h
  have inside : ∀ x ∈ a, p x = true := by
    rw [← run]
    exact fun x hx => List.mem_takeWhile_imp hx
  rw [List.takeWhile_append_of_pos inside, List.append_right_eq_self, List.takeWhile_eq_nil_iff] at run
  simpa using run

theorem Kind.reach_of_spelling {kind : Kind} {spelling : List Char} (h : kind.spelling? = some spelling)
    (cs : List Char) : kind.reach cs = if spelling.isPrefixOf cs then spelling.length else 0 := by
  simp only [reach, h]

/-! ## Blanks -/

/-- At a blank only blanks begin. -/
theorem longest_blank (h : isBlank x = true) (rest : List Char) :
    longest (x :: rest) = (some .blanks, runLength isBlank rest + 1) := by
  have others : longest (x :: rest) = [Class.blanks].foldl (better (x :: rest)) (none, 0) := by
    simp only [isBlank, Bool.or_eq_true, beq_iff_eq] at h
    rcases h with ((rfl | rfl) | rfl) | rfl <;> rfl
  rw [others]
  simp [better, Class.reach, runLength, h]

/-! ## Numbers -/

theorem Number.IsDecimal.exists_digit_cons {cs : List Char} (h : IsDecimal cs) :
    ∃ d more, cs = d :: more ∧ d.isDigit = true := by
  obtain ⟨whole, fraction, nonempty, hw, -, rfl⟩ := h
  obtain ⟨d, more, rfl⟩ := List.exists_cons_of_ne_nil nonempty
  rw [List.all_cons, Bool.and_eq_true] at hw
  exact ⟨d, _, rfl, hw.1⟩

theorem Number.IsDecimal.newline_not_mem {cs : List Char} (h : IsDecimal cs) : '\n' ∉ cs := by
  obtain ⟨whole, fraction, -, hw, hf, rfl⟩ := h
  have outside : ∀ {digits : List Char}, digits.all Char.isDigit = true → '\n' ∉ digits :=
    fun hd hm => absurd (List.all_eq_true.mp hd _ hm) (by decide)
  unfold behindPoint
  split
  · simp [outside hw]
  · simp [outside hw, outside hf]

theorem exists_digit {c : Char} (h : c.isDigit = true) : ∃ n < 10, c = Char.ofNat (48 + n) := by
  obtain ⟨low, high⟩ := Char.isDigit_iff_toNat.mp h
  have bounds : 48 ≤ c.toNat ∧ c.toNat ≤ 57 := ⟨low, high⟩
  exact ⟨c.toNat - 48, by omega, by rw [Nat.add_sub_cancel' bounds.1, Char.ofNat_toNat]⟩

/-- At a digit only numbers begin. -/
theorem longest_digit (h : x.isDigit = true) (rest : List Char) :
    longest (x :: rest) = (some (.token .number), numberReach (x :: rest)) := by
  have others : longest (x :: rest) = [Class.token .number].foldl (better (x :: rest)) (none, 0) := by
    obtain ⟨n, hn, rfl⟩ := exists_digit h
    interval_cases n <;> rfl
  have taken : 0 < numberReach (x :: rest) := by
    have whole : 0 < runLength Char.isDigit (x :: rest) := by simp [runLength, h]
    simp only [numberReach]
    split
    · split
      · omega
      · split <;> omega
    · exact whole
  rw [others]
  simp [better, Class.reach, Kind.reach, Kind.spelling?, taken]

theorem numberReach_of_isDecimal {cs : List Char} (h : IsDecimal cs) : numberReach cs = cs.length := by
  obtain ⟨whole, fraction, nonempty, hw, hf, rfl⟩ := h
  have positive := List.length_pos_iff.mpr nonempty
  unfold behindPoint
  split
  · simp [numberReach, runLength_of_all hw]
  · next hn =>
    have point : runLength Char.isDigit (whole ++ '.' :: fraction) = whole.length := by
      rw [runLength_append_cons rfl, runLength_of_all hw]
    have := List.length_pos_iff.mpr hn
    simp only [numberReach, point, List.drop_left, runLength_of_all hf, List.length_append, List.length_cons]
    rw [if_neg (by omega), if_neg (by omega)]
    omega

/-! ## Signs -/

theorem isPrefixOf_singleton {c : Char} (h : StartsWith (· != c) rest) : [c].isPrefixOf rest = false := by
  cases rest with
  | nil => rfl
  | cons d rest =>
    have other : c ≠ d := (bne_iff_ne.mp (h d rfl)).symm
    simp [List.isPrefixOf, other]

/-- Of two classes that begin with a sign the shorter one is taken where the longer one does not stand. -/
theorem longest_pair {first : Char} {short long : Kind}
    (others : longest (first :: rest) = [Class.token short, .token long].foldl (better (first :: rest)) (none, 0))
    (hs : short.spelling? = some [first]) (hl : long.reach (first :: rest) = 0) :
    longest (first :: rest) = (some (.token short), 1) := by
  have taken : short.reach (first :: rest) = 1 := by
    rw [Kind.reach_of_spelling hs]
    simp
  rw [others]
  simp [better, Class.reach, taken, hl]

theorem commentReach_slash (h : StartsWith (· != '/') rest) : commentReach ('/' :: rest) = 0 := by
  cases rest with
  | nil => rfl
  | cons c rest =>
    have other : c ≠ '/' := bne_iff_ne.mp (h c rfl)
    simp [commentReach, other]

/-- A sign is taken where no character that joins it stands behind it. -/
theorem longest_sign {kind : Kind} {sign : List Char} (hs : kind.spelling? = some sign)
    (notWord : sign.all isNamePart = false) (h : StartsWith kind.isApart rest) :
    longest (sign ++ rest) = (some (.token kind), sign.length) := by
  cases kind <;> cases hs
  case equal | bang | less | greater =>
    refine longest_pair rfl rfl ?_
    rw [Kind.reach_of_spelling rfl]
    simp [isPrefixOf_singleton h]
  case slash =>
    refine longest_pair rfl rfl ?_
    exact commentReach_slash h
  case subseteqWord | inWord | unionWord | intersectWord | letWord | defWord | printWord | trueWord | falseWord =>
    cases notWord
  all_goals exact rfl

/-! ## Words -/

theorem not_isNameStart {c : Char} (h : isNameStart x = true) (hc : isNameStart c = false) : x ≠ c := by
  rintro rfl
  rw [h] at hc
  cases hc

theorem isDigit_of_isNameStart (h : isNameStart x = true) : x.isDigit = false := by
  have nameless : ∀ n < 10, isNameStart (Char.ofNat (48 + n)) = false := by decide
  rw [Bool.eq_false_iff]
  intro hd
  obtain ⟨n, hn, rfl⟩ := exists_digit hd
  rw [nameless n hn] at h
  cases h

theorem Kind.word_or_sign {kind : Kind} {spelling : List Char} (h : kind.spelling? = some spelling) :
    spelling.all isNamePart = true ∨ ∃ first more, spelling = first :: more ∧ isNameStart first = false := by
  cases kind <;> cases h
  all_goals first | exact .inl rfl | exact .inr ⟨_, _, rfl, rfl⟩

theorem isPrefixOf_name {first : Char} (h : isNameStart x = true) (hf : isNameStart first = false)
    (more cs : List Char) : (first :: more).isPrefixOf (x :: cs) = false := by
  have other : first ≠ x := (not_isNameStart h hf).symm
  simp [List.isPrefixOf, other]

theorem isBlank_of_isNameStart (h : isNameStart x = true) : isBlank x = false := by
  rw [Bool.eq_false_iff]
  intro hb
  simp only [isBlank, Bool.or_eq_true, beq_iff_eq] at hb
  rcases hb with ((rfl | rfl) | rfl) | rfl <;> cases h

/-- Behind a name, the first character that is no part of it is out of the reach of every class. -/
theorem longest_name_append {w : List Char} (hx : isNameStart x = true) (h : StartsWith (fun c => !isNamePart c) rest) :
    longest (x :: w ++ rest) = longest (x :: w) := by
  cases rest with
  | nil => rw [List.append_nil]
  | cons c rest =>
    have hc : isNamePart c = false := by simpa using h c rfl
    -- No class that begins with a letter takes `c`, and the other classes do not begin here at all.
    refine longest_congr fun cls _ => ?_
    rcases cls with _ | kind
    · simp [Class.reach, runLength, isBlank_of_isNameStart hx]
    · change kind.reach (x :: w ++ c :: rest) = kind.reach (x :: w)
      cases hs : kind.spelling? with
      | some spelling =>
        rw [Kind.reach_of_spelling hs, Kind.reach_of_spelling hs]
        rcases Kind.word_or_sign hs with hw | ⟨first, more, rfl, hf⟩
        · rw [isPrefixOf_append_cons (List.cons_ne_nil _ _)]
          intro hm
          have := List.all_eq_true.mp hw c (List.mem_of_mem_drop hm)
          rw [hc] at this
          cases this
        · rw [List.cons_append, isPrefixOf_name hx hf, isPrefixOf_name hx hf]
      | none =>
        have quote := not_isNameStart hx (c := '"') rfl
        have slash := not_isNameStart hx (c := '/') rfl
        have point := not_isNameStart hx (c := '.') rfl
        simp only [Kind.reach, hs]
        split
        · simp [numberReach, runLength, isDigit_of_isNameStart hx, point]
        · simp [stringReach, quote]
        · simp [openStringReach, quote]
        · exact identifierReach_append_cons hc (List.cons_ne_nil _ _) rest
        · simp [commentReach, slash]
        · rfl

/-- A word is taken where no part of a name stands behind it. -/
theorem longest_word {kind : Kind} {word : List Char} (hs : kind.spelling? = some word)
    (isWord : word.all isNamePart = true) (h : StartsWith kind.isApart rest) :
    longest (word ++ rest) = (some (.token kind), word.length) := by
  cases kind <;> cases hs
  case subseteqWord | inWord | unionWord | intersectWord | letWord | defWord | printWord | trueWord | falseWord =>
    exact (longest_name_append rfl h).trans (by decide +kernel)
  all_goals cases isWord

/-! ## Strings -/

theorem longest_string {body : List Char} (h : body.all (· != '"') = true) (rest : List Char) :
    longest ('"' :: body ++ '"' :: rest) = (some (.token .string), body.length + 2) := by
  have run : runLength (· != '"') (body ++ '"' :: rest) = body.length := by
    rw [runLength_append_cons (by decide), runLength_of_all h]
  rw [List.cons_append, longest_quote, run, if_pos (by simp)]

theorem exists_body {cs behind : List Char} (nonempty : cs ≠ []) (h : stringReach (cs ++ behind) = cs.length) :
    ∃ body, body.all (· != '"') = true ∧ cs = '"' :: body ++ ['"'] := by
  obtain ⟨c, cs, rfl⟩ := List.exists_cons_of_ne_nil nonempty
  by_cases hc : c = '"'
  · subst hc
    rw [List.cons_append] at h
    simp only [stringReach] at h
    split at h
    · next closed =>
      cases hd : (cs ++ behind).dropWhile (· != '"') with
      | nil =>
        have whole := List.takeWhile_append_dropWhile (p := (· != '"')) (l := cs ++ behind)
        rw [hd, List.append_nil] at whole
        rw [runLength, whole] at closed
        omega
      | cons d more =>
        have hq : d = '"' := by
          have := List.head?_dropWhile_not (· != '"') (cs ++ behind)
          simpa [hd] using this
        subst hq
        have whole := List.takeWhile_append_dropWhile (p := (· != '"')) (l := cs ++ behind)
        rw [hd, List.append_cons] at whole
        have length : ((cs ++ behind).takeWhile (· != '"') ++ ['"']).length = cs.length := by
          rw [List.length_cons, runLength] at h
          rw [List.length_append, List.length_singleton]
          omega
        refine ⟨(cs ++ behind).takeWhile (· != '"'), List.all_takeWhile, ?_⟩
        rw [List.cons_append, (List.append_inj whole length).1]
    · cases h
  · simp [stringReach, hc] at h

end SetScript
