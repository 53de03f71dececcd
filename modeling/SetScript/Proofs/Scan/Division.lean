import SetScript.Proofs.Scan.Rules
/-!
# The division of a text

A text has exactly one division into pieces that are each the longest text of a lexical class at their place, or one
character where no class has a text; a keyword comes before an identifier. The tokens and the errors of a scan are the
pieces of this division that are tokens and errors, in their order and on their lines (`scan_divides`).
-/

namespace SetScript

/-! ## The choice among the classes -/

/-- The choice reaches at least as far as every class, and further than the classes before the one that is chosen. -/
theorem foldl_better (cs : List Char) (classes : List Class) (best : Option Class × Nat) :
    let chosen := classes.foldl (better cs) best
    best.2 ≤ chosen.2 ∧ (∀ cls ∈ classes, cls.reach cs ≤ chosen.2) ∧
      (chosen = best ∨ ∃ before cls after, classes = before ++ cls :: after ∧ chosen = (some cls, cls.reach cs) ∧
        best.2 < cls.reach cs ∧ ∀ earlier ∈ before, earlier.reach cs < cls.reach cs) := by
  induction classes generalizing best with
  | nil => exact ⟨Nat.le_refl _, by simp, .inl rfl⟩
  | cons cls classes ih =>
    obtain ⟨hb, hall, hc⟩ := ih (better cs best cls)
    rw [List.foldl_cons]
    have further : best.2 ≤ (better cs best cls).2 ∧ cls.reach cs ≤ (better cs best cls).2 := by
      unfold better
      split
      · next h => exact ⟨Nat.le_of_lt h, Nat.le_refl _⟩
      · next h => exact ⟨Nat.le_refl _, Nat.not_lt.mp h⟩
    refine ⟨further.1.trans hb, List.forall_mem_cons.mpr ⟨further.2.trans hb, hall⟩, ?_⟩
    rcases hc with hc | ⟨before, chosen, after, rfl, hc, hlt, he⟩
    · by_cases h : best.2 < cls.reach cs
      · refine .inr ⟨[], cls, classes, rfl, ?_, h, by simp⟩
        rw [hc, better, if_pos h]
      · refine .inl ?_
        rw [hc, better, if_neg h]
    · refine .inr ⟨cls :: before, chosen, after, rfl, hc, by omega, ?_⟩
      exact List.forall_mem_cons.mpr ⟨by omega, he⟩

theorem reach_le_longest {cls : Class} (h : cls ∈ Class.all) (cs : List Char) : cls.reach cs ≤ (longest cs).2 :=
  (foldl_better cs Class.all (none, 0)).2.1 cls h

theorem mem_of_mem_takeWhile_append {α : Type} {p : α → Bool} {front back : List α} {x y : α} (hx : p x = false)
    (h : y ∈ (front ++ x :: back).takeWhile p) : y ∈ front := by
  induction front with
  | nil => simp [hx] at h
  | cons z front ih =>
    rw [List.cons_append, List.takeWhile_cons] at h
    split at h
    · exact (List.mem_cons.mp h).elim (fun e => e ▸ List.mem_cons_self) fun h => List.mem_cons_of_mem z (ih h)
    · cases h

/-- Every class in front of the chosen one reaches less far. -/
theorem reach_lt_of_before {cls earlier : Class} {cs : List Char} {n : Nat} (h : longest cs = (some cls, n))
    (before : earlier ∈ Class.all.takeWhile (· != cls)) : earlier.reach cs < n := by
  rcases (foldl_better cs Class.all (none, 0)).2.2 with hc | ⟨front, chosen, back, split, hc, -, less⟩
  · rw [← longest_eq, h] at hc
    cases hc
  · rw [← longest_eq, h] at hc
    cases hc
    rw [split] at before
    exact less earlier (mem_of_mem_takeWhile_append (by simp) before)

/-! ## Divisions -/

/-- The class that a text is taken as: one that has it, where a keyword comes before an identifier. -/
def Class.Takes (cls : Class) (text : List Char) : Prop :=
  cls.Matches text ∧ ∀ other : Class, other.Matches text → other = cls ∨ cls.Precedes other

/-- What a piece at the front of a remaining text has to be: the longest text of a class that the remaining text begins
with, or one character if it begins with no text of a class. -/
def Piece.IsFront (piece : Piece) (remaining : List Char) : Prop :=
  match piece.cls? with
  | some cls =>
    cls.Takes piece.text ∧
      ∀ (other : Class) (text : List Char), other.Matches text → text <+: remaining → text.length ≤ piece.text.length
  | none => piece.text.length = 1 ∧ ∀ (other : Class) (text : List Char), other.Matches text → ¬ text <+: remaining

/-- Consecutive pieces that are the whole text, none of them empty, each with what stands behind it in front of it. -/
structure Divides (ps : List Piece) (cs : List Char) : Prop where
  whole : ps.flatMap (·.text) = cs
  nonempty : ∀ piece ∈ ps, piece.text ≠ []
  longest : ∀ before piece behind, ps = before ++ piece :: behind →
    piece.IsFront ((piece :: behind).flatMap (·.text))

theorem divides_nil : Divides [] [] :=
  ⟨rfl, by simp, fun before piece behind h => by simp at h⟩

theorem divides_cons {piece : Piece} {ps : List Piece} {cs : List Char} :
    Divides (piece :: ps) cs ↔
      piece.text ≠ [] ∧ piece.IsFront cs ∧ ∃ rest, cs = piece.text ++ rest ∧ Divides ps rest := by
  constructor
  · intro h
    refine ⟨h.nonempty piece List.mem_cons_self, h.whole ▸ h.longest [] piece ps rfl, _, h.whole.symm, ?_⟩
    exact ⟨rfl, fun p hp => h.nonempty p (List.mem_cons_of_mem piece hp), fun before p behind hs =>
      h.longest (piece :: before) p behind (by rw [hs, List.cons_append])⟩
  · rintro ⟨nonempty, front, rest, rfl, h⟩
    refine ⟨by rw [List.flatMap_cons, h.whole], List.forall_mem_cons.mpr ⟨nonempty, h.nonempty⟩, ?_⟩
    intro before p behind hs
    cases before with
    | nil =>
      obtain ⟨rfl, rfl⟩ := List.cons.inj hs
      rwa [List.flatMap_cons, h.whole]
    | cons first before => exact h.longest before p behind (List.cons.inj hs).2

/-- The front of a text leaves no choice. -/
theorem Piece.IsFront.unique {piece piece' : Piece} {cs : List Char} (h : piece.IsFront cs) (h' : piece'.IsFront cs)
    (prefixed : piece.text <+: cs) (prefixed' : piece'.text <+: cs) : piece = piece' := by
  obtain ⟨cls?, text⟩ := piece
  obtain ⟨cls?', text'⟩ := piece'
  dsimp only at prefixed prefixed'
  have same : text.length = text'.length → text = text' := fun hl =>
    (List.prefix_of_prefix_length_le prefixed prefixed' hl.le).eq_of_length hl
  cases cls? with
  | none =>
    cases cls?' with
    | none => rw [same (h.1.trans h'.1.symm)]
    | some cls' => exact absurd prefixed' (h.2 cls' text' h'.1.1)
  | some cls =>
    cases cls?' with
    | none => exact absurd prefixed (h'.2 cls text h.1.1)
    | some cls' =>
      obtain rfl := same (Nat.le_antisymm (h'.2 cls text h.1.1 prefixed) (h.2 cls' text' h'.1.1 prefixed'))
      rcases h.1.2 cls' h'.1.1 with rfl | ⟨hi, kind, hk, rfl⟩
      · rfl
      rcases h'.1.2 _ h.1.1 with hc | ⟨hi', kind', hk', hc⟩
      · rw [hc]
      · cases hi'
        exact absurd hk (by decide)

theorem Divides.unique {ps ps' : List Piece} {cs : List Char} (h : Divides ps cs) (h' : Divides ps' cs) : ps = ps' := by
  induction ps generalizing ps' cs with
  | nil =>
    cases ps' with
    | nil => rfl
    | cons piece ps' =>
      obtain ⟨nonempty, -, rest, hr, -⟩ := divides_cons.mp h'
      rw [← h.whole] at hr
      exact absurd (List.append_eq_nil_iff.mp hr.symm).1 nonempty
  | cons piece ps ih =>
    obtain ⟨nonempty, front, rest, hr, hd⟩ := divides_cons.mp h
    cases ps' with
    | nil =>
      rw [← h'.whole] at hr
      exact absurd (List.append_eq_nil_iff.mp hr.symm).1 nonempty
    | cons piece' ps' =>
      obtain ⟨-, front', rest', hr', hd'⟩ := divides_cons.mp h'
      obtain rfl := front.unique front' ⟨rest, hr.symm⟩ ⟨rest', hr'.symm⟩
      obtain rfl := List.append_cancel_left (hr.symm.trans hr')
      rw [ih hd hd']

/-- What the choice among the classes gives is the front of a text. -/
theorem isFront_longest (c : Char) (cs : List Char) :
    (Piece.mk (longest (c :: cs)).1 (c :: cs.take ((longest (c :: cs)).2 - 1))).IsFront (c :: cs) := by
  have most : ∀ (other : Class) (text : List Char), other.Matches text → text <+: c :: cs →
      text.length ≤ (longest (c :: cs)).2 := fun other text hm hp =>
    (hm.le_reach hp).trans (reach_le_longest hm.mem_all _)
  rcases longest_cases (c :: cs) with h | ⟨cls, -, positive, h⟩ <;> rw [h] at most ⊢
  · refine ⟨by simp, fun other text hm hp => ?_⟩
    exact hm.ne_nil (List.eq_nil_of_length_eq_zero (Nat.le_zero.mp (most other text hm hp)))
  · have text : c :: cs.take (cls.reach (c :: cs) - 1) = (c :: cs).take (cls.reach (c :: cs)) := by
      obtain ⟨n, hn⟩ := Nat.exists_eq_succ_of_ne_zero (Nat.ne_of_gt positive)
      rw [hn, List.take_succ_cons, Nat.succ_sub_one]
    have length : ((c :: cs).take (cls.reach (c :: cs))).length = cls.reach (c :: cs) :=
      List.length_take_of_le (cls.reach_le _)
    have has := Class.matches_take_reach positive
    dsimp only at most ⊢
    rw [text]
    refine ⟨⟨has, fun other hm => ?_⟩, fun other longer hm hp => ?_⟩
    · rcases has.rival hm with same | before | ⟨rfl, kind, hk, rfl⟩
      · exact .inl same
      · exact .inr before
      · have before : ∀ kind ∈ Kind.keywords, Class.token kind ∈ Class.all.takeWhile (· != .token .identifier) := by
          decide
        have less := reach_lt_of_before h (before kind hk)
        have reached := hm.le_reach (List.take_prefix _ _)
        rw [length] at reached
        omega
    · exact (most other longer hm hp).trans (Nat.le_of_eq length.symm)

/-- The pieces of a text divide it. -/
theorem divides_pieces (cs : List Char) : Divides (pieces cs) cs := by
  fun_induction pieces cs with
  | case1 => exact divides_nil
  | case2 c cs best ih =>
    refine divides_cons.mpr ⟨List.cons_ne_nil _ _, isFront_longest c cs, _, ?_, ih⟩
    rw [List.cons_append, List.take_append_drop]

/-- Longest first: a longer name than a keyword, two signs out of three, and a point that no digit follows. -/
example : (pieces "lets let===1.25.".toList).map (fun piece => String.ofList piece.text) =
    ["lets", " ", "let", "==", "=", "1.25", "."] := by
  decide +kernel

/-! ## Tokens and errors of a division -/

/-- The pieces of a division, each with its line: one more than the line breaks in front of it. -/
def placed (ps : List Piece) : List (Nat × Piece) :=
  ps.zipIdx.map fun (piece, i) => (1 + ((ps.take i).flatMap (·.text)).count '\n', piece)

/-- The literal that belongs to a text of some kind: a number, a string and a truth value have one, nothing else has. -/
inductive Decodes : Kind → List Char → Option Literal → Prop where
  | number {text : List Char} (finite : Number.isFinite (Number.read text) = true) :
    Decodes .number text (some (.number (Number.read text)))
  | string (body : List Char) : Decodes .string ('"' :: body ++ ['"']) (some (.string (String.ofList body)))
  | trueWord (text : List Char) : Decodes .trueWord text (some (.bool true))
  | falseWord (text : List Char) : Decodes .falseWord text (some (.bool false))
  | other {kind : Kind} (text : List Char) (plain : kind ∉ [Kind.number, .string, .trueWord, .falseWord]) :
    Decodes kind text none

/-- A token is a piece on a line, with the piece for its text. Comments, line breaks and open strings are no tokens. -/
structure Piece.IsToken (piece : Piece) (line : Nat) (token : Token) : Prop where
  cls : piece.cls? = some (.token token.kind)
  kept : token.kind ∉ [Kind.comment, .newLine, .unterminatedString]
  lexeme : token.lexeme = String.ofList piece.text
  literal : Decodes token.kind piece.text token.literal?
  line : token.line = line

/-- An error is a character without a class, an open string or a number whose double is not finite, on a line. -/
inductive Piece.IsError : Piece → Nat → SyntaxError → Prop where
  | character (text : List Char) (line : Nat) :
    IsError ⟨none, text⟩ line ⟨.unexpectedCharacter (String.ofList text), line⟩
  | openString (text : List Char) (line : Nat) :
    IsError ⟨some (.token .unterminatedString), text⟩ line ⟨.unterminatedString, line⟩
  | number {text : List Char} (infinite : Number.isFinite (Number.read text) = false) (line : Nat) :
    IsError ⟨some (.token .number), text⟩ line ⟨.numberOutOfRange (String.ofList text), line⟩

/-- A list has the images of the elements of another one, in their order, and nothing for elements without image. -/
inductive Images {α β : Type} (r : α → β → Prop) : List α → List β → Prop where
  | nil : Images r [] []
  | image {a : α} {b : β} {as : List α} {bs : List β} (h : r a b) (rest : Images r as bs) : Images r (a :: as) (b :: bs)
  | nothing {a : α} {as : List α} {bs : List β} (h : ∀ b, ¬ r a b) (rest : Images r as bs) : Images r (a :: as) bs

theorem images_filterMap {α β : Type} {r : α → β → Prop} {f : α → Option β} {as : List α}
    (h : ∀ a ∈ as, ∀ b, r a b ↔ f a = some b) : Images r as (as.filterMap f) := by
  induction as with
  | nil => exact .nil
  | cons a as ih =>
    rw [List.forall_mem_cons] at h
    cases hf : f a with
    | none =>
      rw [List.filterMap_cons_none hf]
      exact .nothing (fun b hb => by rw [h.1, hf] at hb; cases hb) (ih h.2)
    | some b =>
      rw [List.filterMap_cons_some hf]
      exact .image ((h.1 b).mpr hf) (ih h.2)

theorem numbered_eq (line : Nat) (ps : List Piece) :
    numbered line ps =
      ps.zipIdx.map fun (piece, i) => (line + ((ps.take i).flatMap (·.text)).count '\n', piece) := by
  induction ps generalizing line with
  | nil => rfl
  | cons piece ps ih =>
    rw [numbered, ih, List.zipIdx_cons, List.zipIdx_succ]
    simp [Piece.lineBreaks, Nat.add_assoc]

theorem placed_eq_numbered (ps : List Piece) : placed ps = numbered 1 ps := (numbered_eq 1 ps).symm

theorem token?_eq_some_iff (line : Nat) (text : List Char) (reading : Reading) (token : Token) :
    (Located.mk line text reading).token? = some token ↔
      reading = .token token.kind token.literal? ∧ token.lexeme = String.ofList text ∧ token.line = line := by
  obtain ⟨kind, lexeme, literal?, line'⟩ := token
  cases reading with
  | token => simp [Located.token?, eq_comm, and_left_comm, and_assoc]
  | _ => simp [Located.token?]

/-- The text of a class is read as a token with the literal that belongs to it, unless it is no token at all. -/
theorem reading_eq_token_iff {kind : Kind} {text : List Char} (h : kind.Matches text) (literal? : Option Literal) :
    (Piece.mk (some (.token kind)) text).reading = .token kind literal? ↔
      kind ∉ [Kind.comment, .newLine, .unterminatedString] ∧ Decodes kind text literal? := by
  cases kind with
  | comment | newLine | unterminatedString => simp [Piece.reading]
  | number =>
    simp only [Piece.reading, readNumber]
    split
    · next finite =>
      constructor
      · rintro ⟨⟩
        exact ⟨by decide, .number finite⟩
      · rintro ⟨-, hd⟩
        cases hd with
        | number => rfl
        | other _ plain => exact absurd List.mem_cons_self plain
    · next infinite =>
      refine ⟨fun h => (by cases h), ?_⟩
      rintro ⟨-, hd⟩
      cases hd with
      | number finite => exact absurd finite infinite
      | other _ plain => exact absurd List.mem_cons_self plain
  | string =>
    obtain ⟨body, -, rfl⟩ := h
    have inside : (('"' :: body ++ ['"']).drop 1).dropLast = body := by simp
    simp only [Piece.reading, inside]
    constructor
    · rintro ⟨⟩
      exact ⟨by decide, .string body⟩
    · rintro ⟨-, hd⟩
      generalize ht : '"' :: body ++ ['"'] = text at hd
      cases hd with
      | string body' =>
        have := congrArg (fun text => (text.drop 1).dropLast) ht
        simp only [inside] at this
        simp [this]
      | other _ plain => exact absurd (by decide) plain
  | trueWord | falseWord =>
    constructor
    · rintro ⟨⟩
      exact ⟨by decide, by constructor⟩
    · rintro ⟨-, hd⟩
      cases hd with
      | other _ plain => exact absurd (by decide) plain
      | _ => rfl
  | _ =>
    constructor
    · rintro ⟨⟩
      exact ⟨by decide, .other text (by decide)⟩
    · rintro ⟨-, hd⟩
      cases hd
      rfl

/-- What is read from a piece of a division is its token. -/
theorem Piece.isToken_iff {piece : Piece} {remaining : List Char} (h : piece.IsFront remaining) (line : Nat)
    (token : Token) : piece.IsToken line token ↔ (Located.mk line piece.text piece.reading).token? = some token := by
  rw [token?_eq_some_iff]
  constructor
  · rintro ⟨cls, kept, lexeme, literal, rfl⟩
    obtain ⟨_, text⟩ := piece
    subst cls
    exact ⟨(reading_eq_token_iff h.1.1 _).mpr ⟨kept, literal⟩, lexeme, rfl⟩
  · rintro ⟨reading, lexeme, rfl⟩
    have cls := cls?_of_reading reading
    obtain ⟨_, text⟩ := piece
    subst cls
    obtain ⟨kept, literal⟩ := (reading_eq_token_iff h.1.1 _).mp reading
    exact ⟨rfl, kept, lexeme, literal, rfl⟩

theorem error?_eq_some_iff (line : Nat) (text : List Char) (reading : Reading) (error : SyntaxError) :
    (Located.mk line text reading).error? = some error ↔ reading = .error error.cause ∧ error.line = line := by
  obtain ⟨cause, line'⟩ := error
  cases reading with
  | error => simp [Located.error?, eq_comm]
  | _ => simp [Located.error?]

/-- What is read as an error is an error. -/
theorem Piece.isError_iff (piece : Piece) (line : Nat) (error : SyntaxError) :
    piece.IsError line error ↔ (Located.mk line piece.text piece.reading).error? = some error := by
  rw [error?_eq_some_iff]
  constructor
  · intro h
    cases h with
    | character | openString => exact ⟨rfl, rfl⟩
    | number infinite =>
      refine ⟨?_, rfl⟩
      simp only [reading, readNumber, infinite]
      rfl
  · obtain ⟨cause, line'⟩ := error
    obtain ⟨cls?, text⟩ := piece
    rintro ⟨h, rfl⟩
    rcases cls? with _ | _ | kind
    · cases h
      exact .character text line'
    · cases h
    · cases kind with
      | unterminatedString =>
        cases h
        exact .openString text line'
      | number =>
        simp only [reading, readNumber] at h
        split at h
        · cases h
        · next infinite =>
          obtain rfl := Reading.error.inj h
          exact .number (Bool.eq_false_iff.mpr infinite) line'
      | _ => cases h

/-! ## Main theorem -/

/-- A text has exactly one division. The tokens of its scan are the pieces of it that are tokens, and the errors the
pieces that are errors, in order and on their lines. Behind the tokens stands one end marker, on the last line. -/
theorem scan_divides (source : String) :
    ∃ ps, (∀ qs, Divides qs source.toList ↔ qs = ps) ∧
      ∃ tokens, (scan source).tokens = tokens ++ [⟨.eof, "", none, 1 + source.toList.count '\n'⟩] ∧
        tokens.any (·.kind == .eof) = false ∧
        Images (fun (line, piece) token => piece.IsToken line token) (placed ps) tokens ∧
        Images (fun (line, piece) error => piece.IsError line error) (placed ps) (scan source).errors := by
  have divides := divides_pieces source.toList
  have front : ∀ place ∈ placed (pieces source.toList), ∃ remaining, place.2.IsFront remaining := by
    rintro ⟨line, piece⟩ hp
    rw [placed_eq_numbered] at hp
    obtain ⟨before, behind, split⟩ := List.append_of_mem (mem_numbered hp)
    exact ⟨_, divides.longest before piece behind split⟩
  refine ⟨pieces source.toList, fun qs => ⟨fun h => h.unique divides, fun h => h ▸ divides⟩,
    textTokens source.toList, by rw [scan_eq]; rfl, ?_, ?_, ?_⟩
  · rw [List.any_eq_false]
    intro token ht
    simpa using eofFree_textTokens _ token ht
  · rw [textTokens, locatedReadings, ← placed_eq_numbered, List.filterMap_map]
    refine images_filterMap fun place hp token => ?_
    obtain ⟨remaining, hf⟩ := front place hp
    exact place.2.isToken_iff hf place.1 token
  · rw [scan_eq, textErrors, locatedReadings, ← placed_eq_numbered, List.filterMap_map]
    exact images_filterMap fun place _ error => place.2.isError_iff place.1 error

end SetScript
