import SetScript.Proofs.Lines
import SetScript.Proofs.Scan.Tokens
/-!
# Texts with a line break between them

A line break ends every class of text but a string that is still open. So two texts with a line break between
them are scanned like each on its own, the second on the lines below the first (`scan_append_newline`).
-/

namespace SetScript

theorem runLength_append_of_lt {p : Char → Bool} {a : List Char} (h : runLength p a < a.length) (b : List Char) :
    runLength p (a ++ b) = runLength p a := by
  unfold runLength at h ⊢
  induction a with
  | nil => simp at h
  | cons x a ih =>
    by_cases hx : p x = true
    · simp only [List.takeWhile_cons, hx, if_true, List.length_cons, List.cons_append] at h ⊢
      rw [ih (by omega)]
    · simp [hx]

/-- No class but the two of strings begins with a quote. -/
theorem longest_quote (rest : List Char) :
    longest ('"' :: rest) =
      if runLength (· != '"') rest < rest.length then (some (.token .string), runLength (· != '"') rest + 2)
      else (some (.token .unterminatedString), 1 + runLength (· != '"') rest) := by
  have others : longest ('"' :: rest) =
      [Class.token .string, .token .unterminatedString].foldl (better ('"' :: rest)) (none, 0) := rfl
  rw [others]
  by_cases h : runLength (· != '"') rest < rest.length
  · simp [better, Class.reach, Kind.reach, Kind.spelling?, stringReach, openStringReach, h]
    omega
  · simp [better, Class.reach, Kind.reach, Kind.spelling?, stringReach, openStringReach, h]

theorem Kind.newline_not_mem {kind : Kind} {spelling : List Char} (h : kind.spelling? = some spelling) :
    '\n' ∉ spelling.drop 1 := by
  cases kind <;> cases h <;> decide

/-- A quote is closed somewhere behind it, if the text begins with one. -/
def ClosedQuote (cs : List Char) : Prop := ∀ rest, cs = '"' :: rest → runLength (· != '"') rest < rest.length

theorem stringReach_append_newline {a : List Char} (ha : a ≠ []) (hs : ClosedQuote a) (b : List Char) :
    stringReach (a ++ '\n' :: b) = stringReach a := by
  obtain ⟨x, rest, rfl⟩ := List.exists_cons_of_ne_nil ha
  by_cases hx : x = '"'
  · subst hx
    have closed := hs rest rfl
    simp only [List.cons_append, stringReach, runLength_append_of_lt closed, List.length_append, closed, if_true]
    rw [if_pos (by omega)]
  · simp [stringReach, hx]

theorem openStringReach_append_newline {a : List Char} (ha : a ≠ []) (hs : ClosedQuote a) (b : List Char) :
    openStringReach (a ++ '\n' :: b) = openStringReach a := by
  obtain ⟨x, rest, rfl⟩ := List.exists_cons_of_ne_nil ha
  by_cases hx : x = '"'
  · subst hx
    simp only [List.cons_append, openStringReach, runLength_append_of_lt (hs rest rfl)]
  · simp [openStringReach, hx]

theorem commentReach_append_newline {a : List Char} (ha : a ≠ []) (b : List Char) :
    commentReach (a ++ '\n' :: b) = commentReach a := by
  match a with
  | [x] => by_cases hx : x = '/' <;> simp [commentReach, hx]
  | x :: y :: rest =>
    by_cases hx : x = '/' <;> by_cases hy : y = '/' <;>
      simp [commentReach, hx, hy, runLength_append_cons]

/-- A line break is out of the reach of every class, unless it is in an open string. -/
theorem Kind.reach_append_newline {a : List Char} (ha : a ≠ []) (hs : ClosedQuote a) (b : List Char) (kind : Kind) :
    kind.reach (a ++ '\n' :: b) = kind.reach a := by
  unfold reach
  split
  · next spelling h => rw [isPrefixOf_append_cons ha (newline_not_mem h)]
  · split
    · exact numberReach_append_cons rfl (by decide) _ b
    · exact stringReach_append_newline ha hs b
    · exact openStringReach_append_newline ha hs b
    · exact identifierReach_append_cons rfl ha b
    · exact commentReach_append_newline ha b
    · rfl

theorem longest_append_newline {a : List Char} (ha : a ≠ []) (hs : ClosedQuote a) (b : List Char) :
    longest (a ++ '\n' :: b) = longest a := by
  refine longest_congr fun cls _ => ?_
  cases cls with
  | blanks => exact runLength_append_cons rfl a b
  | token kind => exact kind.reach_append_newline ha hs b

/-- A text in which no string is left open. -/
def NoOpenString (cs : List Char) : Prop :=
  ∀ piece ∈ pieces cs, piece.cls? ≠ some (.token .unterminatedString)

theorem NoOpenString.closedQuote {cs : List Char} (h : NoOpenString cs) : ClosedQuote cs := by
  rintro rest rfl
  refine Decidable.byContradiction fun notClosed => ?_
  refine h ⟨(longest ('"' :: rest)).1, _⟩ (by rw [pieces]; exact List.mem_cons_self ..) ?_
  rw [longest_quote, if_neg notClosed]

/-- A line break is a piece of its own, and what stands before it is divided as if it were the whole text. -/
theorem pieces_append_newline {a : List Char} (h : NoOpenString a) (b : List Char) :
    pieces (a ++ '\n' :: b) = pieces a ++ ⟨some (.token .newLine), ['\n']⟩ :: pieces b := by
  fun_induction pieces a with
  | case1 =>
    rw [List.nil_append, List.nil_append, pieces]
    rfl
  | case2 c cs best ih =>
    have same := longest_append_newline (List.cons_ne_nil c cs) h.closedQuote b
    have fits : (longest (c :: cs)).2 - 1 ≤ cs.length := by
      have := longest_le (c :: cs)
      simp only [List.length_cons] at this
      omega
    rw [List.cons_append, pieces, ← List.cons_append, same, List.take_append_of_le_length fits,
      List.drop_append_of_le_length fits, ih ?_, List.cons_append]
    intro piece hp
    exact h piece (by rw [pieces]; exact List.mem_cons_of_mem _ hp)

/-! ## Lines -/

theorem numbered_append (line : Nat) (front behind : List Piece) :
    numbered line (front ++ behind) =
      numbered line front ++ numbered (line + (front.flatMap (·.text)).count '\n') behind := by
  induction front generalizing line with
  | nil => rfl
  | cons piece front ih => simp [numbered, Piece.lineBreaks, ih, Nat.add_assoc]

theorem numbered_add (line more : Nat) (ps : List Piece) :
    numbered (line + more) ps = (numbered line ps).map (fun (l, piece) => (l + more, piece)) := by
  induction ps generalizing line with
  | nil => rfl
  | cons piece ps ih => simp [numbered, ← ih, Nat.add_right_comm]

def Located.mapLine (f : Nat → Nat) (entry : Located) : Located := { entry with line := f entry.line }

/-- What stands before a line break is read as if it were the whole text, what stands behind it on later lines. -/
theorem locatedReadings_append_newline {a : List Char} (h : NoOpenString a) (b : List Char) :
    locatedReadings (a ++ '\n' :: b) =
      locatedReadings a ++ ⟨1 + a.count '\n', ['\n'], .nothing⟩ ::
        (locatedReadings b).map (Located.mapLine (· + (a.count '\n' + 1))) := by
  unfold locatedReadings
  rw [pieces_append_newline h, numbered_append, flatMap_text_pieces, numbered,
    show 1 + a.count '\n' + (Piece.mk (some (.token .newLine)) ['\n']).lineBreaks = 1 + (a.count '\n' + 1) from rfl,
    numbered_add]
  simp only [List.map_append, List.map_cons, List.map_map]
  rfl

theorem token?_mapLine (f : Nat → Nat) (entry : Located) :
    (entry.mapLine f).token? = entry.token?.map (Token.mapLine f) := by
  obtain ⟨line, text, reading⟩ := entry
  cases reading <;> rfl

theorem error?_mapLine (f : Nat → Nat) (entry : Located) :
    (entry.mapLine f).error? = entry.error?.map (SyntaxError.mapLine f) := by
  obtain ⟨line, text, reading⟩ := entry
  cases reading <;> rfl

theorem textTokens_append_newline {a : List Char} (h : NoOpenString a) (b : List Char) :
    textTokens (a ++ '\n' :: b) =
      textTokens a ++ (textTokens b).map (Token.mapLine (· + (a.count '\n' + 1))) := by
  unfold textTokens
  rw [locatedReadings_append_newline h, List.filterMap_append, List.filterMap_cons_none rfl, List.filterMap_map,
    List.map_filterMap]
  simp only [Function.comp_def, token?_mapLine]

theorem textErrors_append_newline {a : List Char} (h : NoOpenString a) (b : List Char) :
    textErrors (a ++ '\n' :: b) =
      textErrors a ++ (textErrors b).map (SyntaxError.mapLine (· + (a.count '\n' + 1))) := by
  unfold textErrors
  rw [locatedReadings_append_newline h, List.filterMap_append, List.filterMap_cons_none rfl, List.filterMap_map,
    List.map_filterMap]
  simp only [Function.comp_def, error?_mapLine]

/-- A text that is scanned without the error of an open string leaves no string open. -/
theorem noOpenString_of_causes {cs : List Char} (h : ∀ error ∈ textErrors cs, error.cause ≠ .unterminatedString) :
    NoOpenString cs := by
  rintro ⟨_, text⟩ hp rfl
  obtain ⟨line, hl⟩ := exists_mem_numbered hp 1
  have found : ⟨line, text, .error .unterminatedString⟩ ∈ locatedReadings cs := List.mem_map.mpr ⟨_, hl, rfl⟩
  have told : ⟨.unterminatedString, line⟩ ∈ textErrors cs := List.mem_filterMap.mpr ⟨_, found, rfl⟩
  exact h _ told rfl

/-- A text that is scanned without error leaves no string open. -/
theorem noOpenString_of_textErrors {cs : List Char} (h : textErrors cs = []) : NoOpenString cs := by
  apply noOpenString_of_causes
  simp [h]

/-! ## Main theorem -/

/-- Behind a text that leaves no string open, whatever else is wrong with it, and a line break, a text is scanned as it
is alone, on later lines: the tokens of both stand one after the other, without the end marker of the first text, and so
do their errors. -/
theorem scan_append_newline (first second : String)
    (closed : ∀ error ∈ (scan first).errors, error.cause ≠ .unterminatedString) :
    let lower := fun line => line + (1 + first.toList.count '\n')
    ∃ tokens marker, (scan first).tokens = tokens ++ [marker] ∧ marker.kind = .eof ∧
      (∀ token ∈ tokens, token.kind ≠ .eof) ∧
      scan (first ++ "\n" ++ second) =
        ⟨tokens ++ (scan second).tokens.map (Token.mapLine lower),
          (scan first).errors ++ (scan second).errors.map (SyntaxError.mapLine lower)⟩ := by
  intro lower
  rw [scan_eq] at closed
  have noOpen := noOpenString_of_causes closed
  have text : (first ++ "\n" ++ second).toList = first.toList ++ '\n' :: second.toList := by simp
  have order : lower = (· + (first.toList.count '\n' + 1)) := funext fun line => by simp [lower, Nat.add_comm]
  have last : Token.endMarker (1 + (first ++ "\n" ++ second).toList.count '\n') =
      (Token.endMarker (1 + second.toList.count '\n')).mapLine lower := by
    rw [text, List.count_append, List.count_cons_self]
    simp only [Token.endMarker, Token.mapLine, lower, Token.mk.injEq, true_and]
    omega
  refine ⟨textTokens first.toList, Token.endMarker (1 + first.toList.count '\n'), rfl, rfl,
    eofFree_textTokens first.toList, ?_⟩
  rw [scan_eq, scan_eq, scan_eq, last, text, textTokens_append_newline noOpen, textErrors_append_newline noOpen, order]
  simp

/-- Two signs stay two, an error of the first text is kept, and only the second text leaves a string open. -/
theorem scan_append_newline_signs :
    let first := "@\n<"
    let second := "= \"open"
    (∀ error ∈ (scan first).errors, error.cause ≠ .unterminatedString) ∧
      (scan (first ++ "\n" ++ second)).tokens =
        [⟨.less, "<", none, 2⟩, ⟨.equal, "=", none, 3⟩, Token.endMarker 3] ∧
      (scan (first ++ "\n" ++ second)).errors =
        [⟨.unexpectedCharacter "@", 1⟩, ⟨.unterminatedString, 3⟩] := by
  intro first second
  have errors : (scan first).errors = [⟨.unexpectedCharacter "@", 1⟩] := by decide +kernel
  have closed : ∀ error ∈ (scan first).errors, error.cause ≠ .unterminatedString := by simp [errors]
  obtain ⟨tokens, marker, split, -, -, joined⟩ := scan_append_newline first second closed
  have front : tokens = [⟨.less, "<", none, 2⟩] := by
    have whole : (scan first).tokens = [⟨.less, "<", none, 2⟩, Token.endMarker 2] := by decide +kernel
    have init := congrArg List.dropLast (split.symm.trans whole)
    simpa using init
  rw [joined, front]
  exact ⟨closed, by decide +kernel, by decide +kernel⟩

end SetScript
