import SetScript.Proofs.Scan.Legible
/-!
# Written words

A text is `Written` in some tokens if it is read as these tokens, wherever it stands: on other lines, and with any
text behind it that does not join its last word. Tokens as they are written have this property
(`Token.Legible.written`), and so has one written text behind another, if no words are joined between them
(`Written.append`).
-/

namespace SetScript

/-! ## What is read, without lines -/

def Piece.token? (piece : Piece) : Option Token := (Located.mk 1 piece.text piece.reading).token?

def Piece.error? (piece : Piece) : Option SyntaxError := (Located.mk 1 piece.text piece.reading).error?

/-- The tokens of a text, all on line 1. -/
def flatTokens (cs : List Char) : List Token := (pieces cs).filterMap Piece.token?

/-- The errors in a text, all on line 1. -/
def flatErrors (cs : List Char) : List SyntaxError := (pieces cs).filterMap Piece.error?

theorem map_mapLine_textTokens (cs : List Char) :
    (textTokens cs).map (Token.mapLine fun _ => 1) = flatTokens cs := by
  have flat : ∀ entry : Nat × Piece,
      (Located.mk entry.1 entry.2.text entry.2.reading).token?.map (Token.mapLine fun _ => 1) = entry.2.token? := by
    rintro ⟨line, piece⟩
    exact (token?_mapLine (fun _ => 1) ⟨line, piece.text, piece.reading⟩).symm
  unfold textTokens locatedReadings flatTokens
  conv => rhs; rw [← map_snd_numbered 1 (pieces cs)]
  rw [List.map_filterMap, List.filterMap_map, List.filterMap_map]
  exact congrArg (fun f => List.filterMap f _) (funext flat)

theorem map_mapLine_textErrors (cs : List Char) :
    (textErrors cs).map (SyntaxError.mapLine fun _ => 1) = flatErrors cs := by
  have flat : ∀ entry : Nat × Piece,
      (Located.mk entry.1 entry.2.text entry.2.reading).error?.map (SyntaxError.mapLine fun _ => 1) =
        entry.2.error? := by
    rintro ⟨line, piece⟩
    exact (error?_mapLine (fun _ => 1) ⟨line, piece.text, piece.reading⟩).symm
  unfold textErrors locatedReadings flatErrors
  conv => rhs; rw [← map_snd_numbered 1 (pieces cs)]
  rw [List.map_filterMap, List.filterMap_map, List.filterMap_map]
  exact congrArg (fun f => List.filterMap f _) (funext flat)

/-- A word that the longest class takes as a whole is a piece of its own. -/
theorem pieces_append {word rest : List Char} (nonempty : word ≠ []) {cls : Class}
    (h : longest (word ++ rest) = (some cls, word.length)) :
    pieces (word ++ rest) = ⟨some cls, word⟩ :: pieces rest := by
  obtain ⟨c, cs, rfl⟩ := List.exists_cons_of_ne_nil nonempty
  rw [List.cons_append] at h ⊢
  rw [pieces, h]
  simp

/-! ## Blanks -/

theorem pieces_blank {c : Char} (h : isBlank c = true) (rest : List Char) :
    pieces (c :: rest) = ⟨some .blanks, c :: rest.take (runLength isBlank rest)⟩ ::
      pieces (rest.drop (runLength isBlank rest)) := by
  rw [pieces, longest_blank h, Nat.add_sub_cancel]

/-- A space is a piece of its own, or joins the blanks behind it. -/
theorem pieces_space_cons (rest : List Char) :
    ∃ text behind, pieces (' ' :: rest) = ⟨some .blanks, text⟩ :: behind ∧
      (behind = pieces rest ∨ ∃ more, pieces rest = ⟨some .blanks, more⟩ :: behind) := by
  refine ⟨_, _, pieces_blank rfl rest, ?_⟩
  cases rest with
  | nil => exact .inl rfl
  | cons c rest =>
    by_cases hc : isBlank c = true
    · have run : runLength isBlank (c :: rest) = runLength isBlank rest + 1 := by simp [runLength, hc]
      exact .inr ⟨_, by rw [pieces_blank hc rest, run, List.drop_succ_cons]⟩
    · left
      simp [runLength, hc]

/-- A space in front changes nothing. -/
theorem flatTokens_space_cons (rest : List Char) : flatTokens (' ' :: rest) = flatTokens rest := by
  obtain ⟨text, behind, hp, rfl | ⟨more, hr⟩⟩ := pieces_space_cons rest
  · rw [flatTokens, hp]
    rfl
  · rw [flatTokens, flatTokens, hp, hr]
    rfl

theorem flatErrors_space_cons (rest : List Char) : flatErrors (' ' :: rest) = flatErrors rest := by
  obtain ⟨text, behind, hp, rfl | ⟨more, hr⟩⟩ := pieces_space_cons rest
  · rw [flatErrors, hp]
    rfl
  · rw [flatErrors, flatErrors, hp, hr]
    rfl

/-! ## Written texts -/

/-- Before a character with property `p`, or at the end, the text is read as the tokens. -/
structure Written (p : Char → Bool) (text : String) (tokens : List Token) : Prop where
  tokens_eq : ∀ rest, StartsWith p rest → flatTokens (text.toList ++ rest) = tokens ++ flatTokens rest
  errors_eq : ∀ rest, StartsWith p rest → flatErrors (text.toList ++ rest) = flatErrors rest
  /-- A line break in the text is in one of the tokens. -/
  newline : '\n' ∈ text.toList → ∃ token ∈ tokens, '\n' ∈ token.lexeme.toList

variable {p q : Char → Bool} {a b : String} {ts us : List Token}

theorem written_empty : Written p "" [] := ⟨fun _ _ => rfl, fun _ _ => rfl, fun h => by cases h⟩

theorem Written.append (ha : Written p a ts) (hb : Written q b us)
    (joint : ∀ rest, StartsWith q rest → StartsWith p (b.toList ++ rest)) : Written q (a ++ b) (ts ++ us) where
  tokens_eq rest hr := by
    rw [String.toList_append, List.append_assoc, ha.tokens_eq _ (joint rest hr), hb.tokens_eq rest hr,
      List.append_assoc]
  errors_eq rest hr := by
    rw [String.toList_append, List.append_assoc, ha.errors_eq _ (joint rest hr), hb.errors_eq rest hr]
  newline hn := by
    rw [String.toList_append] at hn
    rcases List.mem_append.mp hn with h | h
    · obtain ⟨token, ht, hl⟩ := ha.newline h
      exact ⟨token, List.mem_append_left us ht, hl⟩
    · obtain ⟨token, ht, hl⟩ := hb.newline h
      exact ⟨token, List.mem_append_right ts ht, hl⟩

theorem Written.mono (ha : Written p a ts) (h : ∀ c, q c = true → p c = true) : Written q a ts where
  tokens_eq rest hr := ha.tokens_eq rest fun c hc => h c (hr c hc)
  errors_eq rest hr := ha.errors_eq rest fun c hc => h c (hr c hc)
  newline := ha.newline

theorem written_space : Written p " " [] where
  tokens_eq rest _ := flatTokens_space_cons rest
  errors_eq rest _ := flatErrors_space_cons rest
  newline h := by simp at h

/-- A token is read again as it is written. -/
theorem Token.Legible.written {token : Token} (h : token.Legible) :
    Written token.kind.isApart token.printed.lexeme [token.printed] where
  tokens_eq rest hr := by
    have read : Piece.token? ⟨some (.token token.kind), token.printed.lexeme.toList⟩ = some token.printed := by
      simp only [Piece.token?, Located.token?, h.read_printed, String.ofList_toList]
      rfl
    rw [flatTokens, pieces_append h.printed_nonempty (h.longest_printed hr), List.filterMap_cons_some read]
    rfl
  errors_eq rest hr := by
    have read : Piece.error? ⟨some (.token token.kind), token.printed.lexeme.toList⟩ = none := by
      simp only [Piece.error?, Located.error?, h.read_printed]
    rw [flatErrors, pieces_append h.printed_nonempty (h.longest_printed hr), List.filterMap_cons_none read]
    rfl
  newline hn := ⟨_, List.mem_singleton_self _, hn⟩

/-! ## Between words -/

theorem startsWith_cons {c : Char} (h : p c = true) (cs : List Char) : StartsWith p (c :: cs) := by
  intro d hd
  rw [← Option.some.inj hd, h]

/-- What can stand behind an expression. -/
def isBreak (c : Char) : Bool := c ∈ [' ', '(', ')', '\x7d', ',', '|', ';']

theorem Kind.isApart_of_isBreak (kind : Kind) {c : Char} (h : isBreak c = true) : kind.isApart c = true := by
  simp only [isBreak, decide_eq_true_eq, List.mem_cons, List.not_mem_nil, or_false] at h
  rcases h with rfl | rfl | rfl | rfl | rfl | rfl | rfl <;> cases kind <;> rfl

/-- A sign that nothing joins can stand before any text. -/
theorem Written.append_open (ha : Written p a ts) (hb : Written q b us) (h : ∀ c, p c = true) :
    Written q (a ++ b) (ts ++ us) :=
  ha.append hb fun _ _ c _ => h c

/-- Behind a text comes one that begins with a break. -/
theorem Written.append_break {c : Char} {more : List Char} (ha : Written isBreak a ts) (hb : Written q b us)
    (hc : b.toList = c :: more) (h : isBreak c = true) : Written q (a ++ b) (ts ++ us) := by
  refine ha.append hb fun rest _ => ?_
  rw [hc]
  exact startsWith_cons h _

/-- A word with a space behind it. -/
theorem Written.append_space (ha : Written p a ts) (h : p ' ' = true) : Written q (a ++ " ") ts := by
  have := ha.append (written_space (p := q)) fun rest _ => startsWith_cons h rest
  rwa [List.append_nil] at this

/-- A word with spaces on both sides. -/
theorem Written.spaced (ha : Written p a ts) (h : p ' ' = true) : Written q (" " ++ a ++ " ") ts :=
  Written.append_space (written_space.append_open ha fun _ => rfl) h

/-- An operator between its operands. -/
theorem Written.between {w : String} {word : Token} (left : Written isBreak a ts) (op : Written p w [word])
    (h : p ' ' = true) (right : Written q b us) : Written q (a ++ (" " ++ w ++ " ") ++ b) (ts ++ word :: us) := by
  have sign : Written (fun _ => true) (" " ++ w ++ " ") [word] := op.spaced h
  have front : (" " ++ w ++ " ").toList = ' ' :: (w ++ " ").toList := by simp
  have := (left.append_break sign front rfl).append_open right fun _ => rfl
  rwa [List.append_assoc] at this

theorem flatTokens_equal (rest : List Char) :
    ∃ token tokens, flatTokens ('=' :: rest) = token :: tokens ∧ (token.kind = .equal ∨ token.kind = .equalEqual) := by
  by_cases h : StartsWith (· != '=') rest
  · have taken : longest (['='] ++ rest) = (some (.token .equal), 1) := longest_sign rfl rfl h
    refine ⟨⟨.equal, "=", none, 1⟩, flatTokens rest, ?_, .inl rfl⟩
    rw [flatTokens, ← List.singleton_append, pieces_append (List.cons_ne_nil _ _) taken]
    rfl
  · obtain ⟨rest, rfl⟩ : ∃ more, rest = '=' :: more := by
      cases rest with
      | nil => exact absurd (fun _ hc => nomatch hc) h
      | cons c rest =>
        by_cases hc : c = '='
        · exact ⟨rest, by rw [hc]⟩
        · exact absurd (startsWith_cons (p := (· != '=')) (bne_iff_ne.mpr hc) rest) h
    have taken : longest (['=', '='] ++ rest) = (some (.token .equalEqual), 2) :=
      longest_sign rfl rfl fun _ _ => rfl
    refine ⟨⟨.equalEqual, "==", none, 1⟩, flatTokens rest, ?_, .inr rfl⟩
    change flatTokens (['=', '='] ++ rest) = _
    rw [flatTokens, pieces_append (List.cons_ne_nil _ _) taken]
    rfl

/-- A text that does not begin with a token of `=` or `==` does not begin with this character. -/
theorem Written.startsWith_ne_equal {token : Token} (ha : Written isBreak a (token :: ts)) (h : token.kind ≠ .equal)
    (h' : token.kind ≠ .equalEqual) {rest : List Char} (hr : StartsWith isBreak rest) :
    StartsWith (· != '=') (a.toList ++ rest) := by
  intro c hc
  obtain ⟨more, hm⟩ := List.head?_eq_some_iff.mp hc
  rw [bne_iff_ne]
  rintro rfl
  obtain ⟨first, tokens, hf, hk⟩ := flatTokens_equal more
  have both := ha.tokens_eq rest hr
  rw [hm, hf, List.cons_append] at both
  rw [(List.cons.inj both).1] at hk
  exact hk.elim h h'

end SetScript
