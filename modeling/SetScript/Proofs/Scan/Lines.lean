import SetScript.Proofs.Scan.Division
/-!
# Lines in a text

A piece of a text stands on the line after the line breaks in front of it. So the lines of tokens never go back, and
they are between the first line and the last, on which the end marker stands (`lines_scan`). An error stands on the
line on which its piece begins (`exists_piece_of_error`).
-/

namespace SetScript

/-- Lines from `first` to `last` that never go back. -/
structure LinesWithin (first last : Nat) (lines : List Nat) : Prop where
  ordered : lines.Pairwise (· ≤ ·)
  within : ∀ line ∈ lines, first ≤ line ∧ line ≤ last

theorem LinesWithin.sublist {first last : Nat} {lines lines' : List Nat} (h : LinesWithin first last lines)
    (hs : lines'.Sublist lines) : LinesWithin first last lines' :=
  ⟨h.ordered.sublist hs, fun line hm => h.within line (hs.subset hm)⟩

/-- The last of them may come once more at the end. -/
theorem LinesWithin.ordered_append {first last : Nat} {lines : List Nat} (h : LinesWithin first last lines) :
    (lines ++ [last]).Pairwise (· ≤ ·) := by
  refine List.pairwise_append.mpr ⟨h.ordered, List.pairwise_singleton _ _, fun line hl other ho => ?_⟩
  rw [List.mem_singleton.mp ho]
  exact (h.within line hl).2

/-- A line that is among them stands between the first and the last. -/
theorem LinesWithin.between {first last line : Nat} {lines : List Nat} (h : LinesWithin first last lines)
    (hm : line ∈ lines) : ∃ start stop, lines.head? = some start ∧ lines.getLast? = some stop ∧
      start ≤ line ∧ line ≤ stop := by
  have hn := List.ne_nil_of_mem hm
  refine ⟨lines.head hn, lines.getLast hn, List.head?_eq_some_head hn, List.getLast?_eq_some_getLast hn, ?_, ?_⟩
  · exact h.ordered.rel_head hm
  · exact h.ordered.rel_getLast hm

theorem lines_numbered (line : Nat) (ps : List Piece) :
    LinesWithin line (line + (ps.flatMap (·.text)).count '\n') ((numbered line ps).map (·.1)) := by
  induction ps generalizing line with
  | nil => exact ⟨.nil, fun _ h => nomatch h⟩
  | cons piece ps ih =>
    have later := ih (line + piece.lineBreaks)
    rw [numbered, List.map_cons, List.flatMap_cons, List.count_append]
    unfold Piece.lineBreaks at later
    refine ⟨List.pairwise_cons.mpr ⟨fun l hl => ?_, later.ordered⟩, List.forall_mem_cons.mpr ⟨?_, fun l hl => ?_⟩⟩
    · have := (later.within l hl).1
      omega
    · omega
    · have := later.within l hl
      omega

/-- Whatever is picked from the pieces of a text with the line of its piece. -/
theorem lines_picked {α : Type} (pick : Located → Option α) (line : α → Nat)
    (h : ∀ entry a, pick entry = some a → line a = entry.line) (cs : List Char) :
    LinesWithin 1 (1 + cs.count '\n') (((locatedReadings cs).filterMap pick).map line) := by
  have whole := lines_numbered 1 (pieces cs)
  rw [flatMap_text_pieces] at whole
  refine whole.sublist ?_
  have places : (numbered 1 (pieces cs)).map (·.1) = (locatedReadings cs).map (·.line) := by
    rw [locatedReadings, List.map_map]
    rfl
  rw [places]
  clear whole places
  induction locatedReadings cs with
  | nil => exact .slnil
  | cons entry entries ih =>
    cases hp : pick entry with
    | none =>
      rw [List.filterMap_cons_none hp]
      exact ih.cons _
    | some a =>
      rw [List.filterMap_cons_some hp, List.map_cons, List.map_cons, h entry a hp]
      exact ih.cons_cons _

theorem lines_textTokens (cs : List Char) : LinesWithin 1 (1 + cs.count '\n') ((textTokens cs).map (·.line)) := by
  refine lines_picked _ _ (fun entry token h => ?_) cs
  exact ((token?_eq_some_iff entry.line entry.text entry.reading token).mp h).2.2

theorem lines_textErrors (cs : List Char) : LinesWithin 1 (1 + cs.count '\n') ((textErrors cs).map (·.line)) := by
  refine lines_picked _ _ (fun entry error h => ?_) cs
  exact ((error?_eq_some_iff entry.line entry.text entry.reading error).mp h).2

/-- The tokens of a scan, with the end marker. -/
theorem lines_scan (source : String) :
    LinesWithin 1 (1 + source.toList.count '\n') ((scan source).tokens.map (·.line)) := by
  have inside := lines_textTokens source.toList
  rw [scan_eq, List.map_append, List.map_singleton]
  refine ⟨inside.ordered_append, fun line hl => ?_⟩
  rcases List.mem_append.mp hl with hl | hl
  · exact inside.within line hl
  · rw [List.mem_singleton.mp hl]
    exact ⟨Nat.le_add_right 1 _, Nat.le_refl _⟩

/-- A piece stands after the line breaks of the pieces in front of it. -/
theorem split_of_mem_numbered {line l : Nat} {ps : List Piece} {piece : Piece} (h : (l, piece) ∈ numbered line ps) :
    ∃ front behind, ps = front ++ piece :: behind ∧ l = line + (front.flatMap (·.text)).count '\n' := by
  induction ps generalizing line with
  | nil => cases h
  | cons first ps ih =>
    rcases List.mem_cons.mp h with same | later
    · obtain ⟨rfl, rfl⟩ := Prod.mk.inj same
      exact ⟨[], ps, rfl, by simp⟩
    · obtain ⟨front, behind, rfl, rfl⟩ := ih later
      exact ⟨first :: front, behind, rfl, by simp [Piece.lineBreaks, Nat.add_assoc]⟩

/-- An error in a text is a piece of it, and stands on the line on which this piece begins. -/
theorem exists_piece_of_error {cs : List Char} {error : SyntaxError} (h : error ∈ textErrors cs) :
    ∃ front piece behind, pieces cs = front ++ piece :: behind ∧
      piece.IsError (1 + (front.flatMap (·.text)).count '\n') error := by
  obtain ⟨entry, he, hp⟩ := List.mem_filterMap.mp h
  obtain ⟨⟨line, piece⟩, hm, rfl⟩ := List.mem_map.mp he
  obtain ⟨front, behind, split, rfl⟩ := split_of_mem_numbered hm
  exact ⟨front, piece, behind, split, (piece.isError_iff _ _).mpr hp⟩

end SetScript
