import SetScript.Proofs.Scan.Front
/-!
# Lexical rules

What texts the lexical classes stand for is said here without reference to how far they reach in a longer text. The
reach of a class is then the length of the longest of its texts that begins the given one (`Class.matches_take_reach`,
`Class.Matches.le_reach`), and the only texts of two classes are the keywords, which are identifiers too
(`Class.Matches.rival`).
-/

namespace SetScript

/-- The texts of a token class. -/
def Kind.Matches (kind : Kind) (text : List Char) : Prop :=
  match kind.spelling? with
  | some spelling => text = spelling
  | none =>
    match kind with
    | .number => Number.IsDecimal text
    | .string => ∃ body, body.all (· != '"') = true ∧ text = '"' :: body ++ ['"']
    | .unterminatedString => ∃ body, body.all (· != '"') = true ∧ text = '"' :: body
    | .identifier => ∃ first more, isNameStart first = true ∧ more.all isNamePart = true ∧ text = first :: more
    | .comment => ∃ body, body.all (· != '\n') = true ∧ text = '/' :: '/' :: body
    | _ => False

/-- The texts of a class. -/
def Class.Matches : Class → List Char → Prop
  | .blanks, text => text ≠ [] ∧ text.all isBlank = true
  | .token kind, text => kind.Matches text

theorem Kind.matches_of_spelling {kind : Kind} {spelling : List Char} (h : kind.spelling? = some spelling)
    {text : List Char} : kind.Matches text ↔ text = spelling := by
  simp only [Matches, h]

theorem Kind.spelling_ne_nil {kind : Kind} {spelling : List Char} (h : kind.spelling? = some spelling) :
    spelling ≠ [] := by
  cases kind <;> cases h <;> decide

/-- No class has the empty text. -/
theorem Class.Matches.ne_nil {cls : Class} {text : List Char} (h : cls.Matches text) : text ≠ [] := by
  cases cls with
  | blanks => exact h.1
  | token kind =>
    cases hs : kind.spelling? with
    | some spelling => exact (Kind.matches_of_spelling hs).mp h ▸ Kind.spelling_ne_nil hs
    | none =>
      simp only [Class.Matches, Kind.Matches, hs] at h
      split at h
      · obtain ⟨d, more, rfl, -⟩ := h.exists_digit_cons
        exact List.cons_ne_nil d more
      · obtain ⟨body, -, rfl⟩ := h
        exact List.cons_ne_nil _ _
      · obtain ⟨body, -, rfl⟩ := h
        exact List.cons_ne_nil _ _
      · obtain ⟨first, more, -, -, rfl⟩ := h
        exact List.cons_ne_nil _ _
      · obtain ⟨body, -, rfl⟩ := h
        exact List.cons_ne_nil _ _
      · cases h

theorem Class.Matches.mem_all {cls : Class} {text : List Char} (h : cls.Matches text) : cls ∈ Class.all := by
  rcases cls with _ | kind
  · decide
  · cases kind
    case eof => cases h
    all_goals decide

/-! ## The reach is a text of the class -/

theorem take_eq_of_front {text cs : List Char} (h : text <+: cs) {n : Nat} (hn : text.length = n) :
    cs.take n = text := by
  subst hn
  exact (List.prefix_iff_eq_take.mp h).symm

theorem take_runLength (p : Char → Bool) (cs : List Char) : cs.take (runLength p cs) = cs.takeWhile p :=
  take_eq_of_front (List.takeWhile_prefix p) rfl

theorem isDecimal_take_numberReach {cs : List Char} (h : 0 < numberReach cs) :
    Number.IsDecimal (cs.take (numberReach cs)) := by
  have split := List.take_append_drop (runLength Char.isDigit cs) cs
  rw [take_runLength] at split
  have digits : (cs.takeWhile Char.isDigit).all Char.isDigit = true := List.all_takeWhile
  have whole : 0 < runLength Char.isDigit cs → Number.IsDecimal (cs.take (runLength Char.isDigit cs)) := by
    intro positive
    rw [take_runLength]
    exact ⟨_, [], List.length_pos_iff.mp positive, digits, rfl, (List.append_nil _).symm⟩
  simp only [numberReach] at h ⊢
  split at h
  · next rest hr =>
    split at h
    · cases h
    · next positive =>
      rw [if_neg positive]
      split at h
      · next none =>
        rw [if_pos none]
        exact whole h
      · next some =>
        rw [if_neg some]
        have fraction : rest.takeWhile Char.isDigit ≠ [] := fun hn => some (by rw [runLength, hn, List.length_nil])
        have front : cs.takeWhile Char.isDigit ++ '.' :: rest.takeWhile Char.isDigit <+: cs := by
          rw [hr] at split
          nth_rewrite 2 [← split]
          exact List.prefix_append_right_inj _ |>.mpr (List.cons_prefix_cons.mpr ⟨rfl, List.takeWhile_prefix _⟩)
        have digits' : (rest.takeWhile Char.isDigit).all Char.isDigit = true := List.all_takeWhile
        rw [take_eq_of_front front (by simp [runLength]; omega)]
        refine ⟨_, _, ?_, digits, digits', ?_⟩
        · exact fun hn => positive (by rw [runLength, hn, List.length_nil])
        · rw [Number.behindPoint, if_neg fraction]
  · exact whole h

theorem Kind.matches_take_reach {kind : Kind} {cs : List Char} (h : 0 < kind.reach cs) :
    kind.Matches (cs.take (kind.reach cs)) := by
  cases hs : kind.spelling? with
  | some spelling =>
    rw [reach_of_spelling hs] at h ⊢
    rw [matches_of_spelling hs]
    split at h
    · next hp =>
      rw [if_pos hp]
      exact take_eq_of_front (List.isPrefixOf_iff_prefix.mp hp) rfl
    · cases h
  | none =>
    simp only [reach, Matches, hs] at h ⊢
    split at h
    · exact isDecimal_take_numberReach h
    · have fits : stringReach cs ≤ cs.length := Kind.reach_le .string cs
      have length := List.length_take_of_le fits
      have closed : stringReach (cs.take (stringReach cs) ++ cs.drop (stringReach cs)) =
          (cs.take (stringReach cs)).length := by
        rw [List.take_append_drop, length]
      exact exists_body (List.length_pos_iff.mp (length.symm ▸ h)) closed
    · unfold openStringReach at h ⊢
      split at h
      · next rest =>
        refine ⟨rest.takeWhile (· != '"'), List.all_takeWhile, ?_⟩
        rw [Nat.add_comm, List.take_succ_cons, take_runLength]
      · cases h
    · unfold identifierReach at h ⊢
      split at h
      · next first rest =>
        split at h
        · next hf =>
          refine ⟨first, rest.takeWhile isNamePart, hf, List.all_takeWhile, ?_⟩
          simp only [hf, if_true]
          rw [Nat.add_comm, List.take_succ_cons, take_runLength]
        · cases h
      · cases h
    · unfold commentReach at h ⊢
      split at h
      · next rest =>
        refine ⟨rest.takeWhile (· != '\n'), List.all_takeWhile, ?_⟩
        rw [Nat.add_comm, List.take_succ_cons, List.take_succ_cons, take_runLength]
      · cases h
    · cases h

theorem Class.matches_take_reach {cls : Class} {cs : List Char} (h : 0 < cls.reach cs) :
    cls.Matches (cs.take (cls.reach cs)) := by
  cases cls with
  | blanks =>
    rw [reach, take_runLength]
    exact ⟨List.length_pos_iff.mp h, List.all_takeWhile⟩
  | token kind => exact Kind.matches_take_reach h

/-! ## No text of the class goes further -/

theorem runLength_le_numberReach (cs : List Char) : runLength Char.isDigit cs ≤ numberReach cs := by
  simp only [numberReach]
  split
  · split
    · omega
    · split <;> omega
  · exact Nat.le_refl _

theorem le_runLength_append {p : Char → Bool} {text : List Char} (h : text.all p = true) (behind : List Char) :
    text.length ≤ runLength p (text ++ behind) := by
  rw [runLength_append_of_all h]
  exact Nat.le_add_right _ _

theorem Number.IsDecimal.le_reach {text : List Char} (h : IsDecimal text) (behind : List Char) :
    text.length ≤ numberReach (text ++ behind) := by
  obtain ⟨whole, fraction, nonempty, hw, hf, rfl⟩ := h
  have positive := List.length_pos_iff.mpr nonempty
  unfold behindPoint
  split
  · rw [List.append_nil]
    exact (le_runLength_append hw behind).trans (runLength_le_numberReach _)
  · next some =>
    have point : runLength Char.isDigit (whole ++ '.' :: (fraction ++ behind)) = whole.length := by
      rw [runLength_append_cons rfl, runLength_of_all hw]
    have more := le_runLength_append hf behind
    have := List.length_pos_iff.mpr some
    rw [List.append_assoc, List.cons_append]
    simp only [numberReach, point, List.drop_left, List.length_append, List.length_cons]
    rw [if_neg (by omega), if_neg (by omega)]
    omega

theorem Kind.Matches.le_reach {kind : Kind} {text : List Char} (h : kind.Matches text) (behind : List Char) :
    text.length ≤ kind.reach (text ++ behind) := by
  cases hs : kind.spelling? with
  | some spelling =>
    obtain rfl := (matches_of_spelling hs).mp h
    rw [reach_of_spelling hs, if_pos (List.isPrefixOf_iff_prefix.mpr (List.prefix_append _ _))]
  | none =>
    simp only [reach, Matches, hs] at h ⊢
    split at h
    · exact h.le_reach behind
    · obtain ⟨body, hb, rfl⟩ := h
      have run : runLength (· != '"') (body ++ '"' :: behind) = body.length := by
        rw [runLength_append_cons (by decide), runLength_of_all hb]
      simp [stringReach, run]
    · obtain ⟨body, hb, rfl⟩ := h
      have := le_runLength_append hb behind
      simp only [List.cons_append, openStringReach, List.length_cons]
      omega
    · obtain ⟨first, more, hf, hm, rfl⟩ := h
      have := le_runLength_append hm behind
      simp only [List.cons_append, identifierReach, hf, if_true, List.length_cons]
      omega
    · obtain ⟨body, hb, rfl⟩ := h
      have := le_runLength_append hb behind
      simp only [List.cons_append, commentReach, List.length_cons]
      omega
    · cases h

theorem Class.Matches.le_reach {cls : Class} {text : List Char} (h : cls.Matches text) {cs : List Char}
    (front : text <+: cs) : text.length ≤ cls.reach cs := by
  obtain ⟨behind, rfl⟩ := front
  cases cls with
  | blanks => exact le_runLength_append h.2 behind
  | token kind => exact Kind.Matches.le_reach h behind

/-! ## Texts of two classes -/

/-- The words that have a class of their own. -/
def Kind.keywords : List Kind :=
  [.subseteqWord, .inWord, .unionWord, .intersectWord, .letWord, .defWord, .printWord, .trueWord, .falseWord]

/-- One class comes before another one where both have a text: a keyword before the identifiers. -/
def Class.Precedes (cls other : Class) : Prop :=
  other = .token .identifier ∧ ∃ kind ∈ Kind.keywords, cls = .token kind

/-- The characters that the texts of a class without a fixed spelling begin with. -/
def Class.leads : Class → Char → Bool
  | .blanks, c => isBlank c
  | .token .number, c => c.isDigit
  | .token .string, c | .token .unterminatedString, c => c == '"'
  | .token .identifier, c => isNameStart c
  | .token .comment, c => c == '/'
  | .token _, _ => false

/-- The only text of a class, if its texts are spelled in one way. -/
def Class.spelling? : Class → Option (List Char)
  | .blanks => none
  | .token kind => kind.spelling?

theorem Class.Matches.exists_lead {cls : Class} {text : List Char} (h : cls.Matches text) (hs : cls.spelling? = none) :
    ∃ c more, text = c :: more ∧ cls.leads c = true := by
  cases cls with
  | blanks =>
    obtain ⟨c, more, rfl⟩ := List.exists_cons_of_ne_nil h.1
    exact ⟨c, more, rfl, (Bool.and_eq_true_iff.mp h.2).1⟩
  | token kind =>
    simp only [spelling?] at hs
    simp only [Matches, Kind.Matches, hs] at h
    split at h
    · exact h.exists_digit_cons
    · obtain ⟨body, -, rfl⟩ := h
      exact ⟨_, _, rfl, rfl⟩
    · obtain ⟨body, -, rfl⟩ := h
      exact ⟨_, _, rfl, rfl⟩
    · obtain ⟨first, more, hf, -, rfl⟩ := h
      exact ⟨first, more, rfl, hf⟩
    · obtain ⟨body, -, rfl⟩ := h
      exact ⟨_, _, rfl, rfl⟩
    · cases h

/-- A fixed spelling is a text of no other class, unless it is a keyword. -/
theorem Kind.rival_of_spelling {kind : Kind} {spelling : List Char} (hs : kind.spelling? = some spelling) :
    ∀ other ∈ Class.all, other.reach spelling = spelling.length → other = .token kind ∨
      (other = .token .identifier ∧ kind ∈ Kind.keywords) := by
  cases kind <;> cases hs <;> decide +kernel

/-- The class that a character other than a quote leads. -/
def Class.ofLead? (c : Char) : Option Class :=
  if isNameStart c then some (.token .identifier)
  else if c.isDigit then some (.token .number)
  else if isBlank c then some .blanks
  else if c = '/' then some (.token .comment)
  else none

theorem isBlank_of_isDigit {c : Char} (h : c.isDigit = true) : isBlank c = false := by
  have apart : ∀ n < 10, isBlank (Char.ofNat (48 + n)) = false := by decide
  obtain ⟨n, hn, rfl⟩ := exists_digit h
  exact apart n hn

theorem Class.ofLead?_of_leads {cls : Class} {c : Char} (h : cls.leads c = true) (hc : c ≠ '"') :
    ofLead? c = some cls := by
  rcases cls with _ | kind
  · have nameless : isNameStart c = false := by
      refine Bool.eq_false_iff.mpr fun hn => ?_
      rw [leads, isBlank_of_isNameStart hn] at h
      cases h
    have digitless : c.isDigit = false := by
      refine Bool.eq_false_iff.mpr fun hd => ?_
      rw [leads, isBlank_of_isDigit hd] at h
      cases h
    rw [leads] at h
    simp [ofLead?, nameless, digitless, h]
  · cases kind with
    | identifier =>
      rw [leads] at h
      simp [ofLead?, h]
    | number =>
      have nameless : isNameStart c = false := by
        refine Bool.eq_false_iff.mpr fun hn => ?_
        rw [leads, isDigit_of_isNameStart hn] at h
        cases h
      rw [leads] at h
      simp [ofLead?, nameless, h]
    | comment =>
      obtain rfl : c = '/' := by simpa [leads] using h
      rfl
    | string | unterminatedString => exact absurd (by simpa [leads] using h) hc
    | _ => cases h

theorem Class.of_leads_quote {cls : Class} (h : cls.leads '"' = true) :
    cls = .token .string ∨ cls = .token .unterminatedString := by
  rcases cls with _ | kind
  · cases h
  · cases kind
    case string => exact .inl rfl
    case unterminatedString => exact .inr rfl
    all_goals cases h

/-- A closed string is not an open one. -/
theorem not_matches_open {text : List Char} (h : Kind.string.Matches text) :
    ¬ Kind.unterminatedString.Matches text := by
  obtain ⟨body, -, rfl⟩ := h
  rintro ⟨body', hb, heq⟩
  obtain rfl : body ++ ['"'] = body' := (List.cons.inj heq).2
  simp at hb

/-- If two classes have one text, then they are the same or one is a keyword and the other has the identifiers. -/
theorem Class.Matches.rival {cls other : Class} {text : List Char} (h : cls.Matches text) (h' : other.Matches text) :
    other = cls ∨ cls.Precedes other ∨ other.Precedes cls := by
  have whole : ∀ {cls : Class}, cls.Matches text → cls.reach text = text.length := fun hm =>
    Nat.le_antisymm (Class.reach_le _ text) (hm.le_reach (List.prefix_refl text))
  have spelled : ∀ {cls other : Class} {spelling : List Char}, cls.spelling? = some spelling → cls.Matches text →
      other.Matches text → other = cls ∨ cls.Precedes other := by
    intro cls other spelling hs hm hm'
    rcases cls with _ | kind
    · cases hs
    · obtain rfl := (Kind.matches_of_spelling hs).mp hm
      exact (Kind.rival_of_spelling hs other hm'.mem_all (whole hm')).imp_right fun ⟨ho, hk⟩ => ⟨ho, kind, hk, rfl⟩
  cases hs : cls.spelling? with
  | some spelling => exact (spelled hs h h').imp_right .inl
  | none =>
    cases hs' : other.spelling? with
    | some spelling => exact (spelled hs' h' h).imp Eq.symm .inr
    | none =>
      left
      obtain ⟨c, more, rfl, hl⟩ := h.exists_lead hs
      obtain ⟨c', more', heq, hl'⟩ := h'.exists_lead hs'
      obtain ⟨rfl, rfl⟩ := List.cons.inj heq
      by_cases hc : c = '"'
      · subst hc
        rcases of_leads_quote hl with rfl | rfl <;> rcases of_leads_quote hl' with rfl | rfl
        · rfl
        · exact absurd h' (not_matches_open h)
        · exact absurd h (not_matches_open h')
        · rfl
      · exact Option.some.inj ((ofLead?_of_leads hl' hc).symm.trans (ofLead?_of_leads hl hc))

end SetScript
