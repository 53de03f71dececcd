import SetScript.Proofs.Scan.Longest
import SetScript.Scan
/-!
# The tokens of a text

The pieces of a text are the whole text, and every token is read from a piece of its class. No text has an end
marker among its tokens (`eofFree_textTokens`).
-/

namespace SetScript

theorem flatMap_text_pieces (cs : List Char) : (pieces cs).flatMap (·.text) = cs := by
  fun_induction pieces cs with
  | case1 => rfl
  | case2 c cs best ih => rw [List.flatMap_cons, ih, List.cons_append, List.take_append_drop]

/-- The tokens of a text. -/
def textTokens (cs : List Char) : List Token := (locatedReadings cs).filterMap Located.token?

/-- The errors in a text. -/
def textErrors (cs : List Char) : List SyntaxError := (locatedReadings cs).filterMap Located.error?

theorem scan_eq (source : String) :
    scan source = ⟨textTokens source.toList ++ [Token.endMarker (1 + source.toList.count '\n')],
      textErrors source.toList⟩ := rfl

/-- A token is read from a piece of its class. -/
theorem Piece.cls?_of_reading {piece : Piece} {kind : Kind} {literal? : Option Literal}
    (h : piece.reading = .token kind literal?) : piece.cls? = some (.token kind) := by
  obtain ⟨cls?, text⟩ := piece
  rcases cls? with _ | _ | k
  · cases h
  · cases h
  · cases k with
    | number =>
      simp only [reading, readNumber] at h
      split at h <;> cases h
      rfl
    | _ => cases h <;> rfl

/-- The class of a piece is one of those that text is divided into. -/
theorem cls_mem_all {cs : List Char} {piece : Piece} (h : piece ∈ pieces cs) {cls : Class}
    (hc : piece.cls? = some cls) : cls ∈ Class.all := by
  fun_induction pieces cs with
  | case1 => cases h
  | case2 c cs best ih =>
    rcases List.mem_cons.mp h with rfl | h
    · rcases longest_cases (c :: cs) with hl | ⟨cls', hm, -, hl⟩ <;> rw [show best = _ from hl] at hc
      · cases hc
      · exact Option.some.inj hc ▸ hm
    · exact ih h

theorem map_snd_numbered (line : Nat) (ps : List Piece) : (numbered line ps).map Prod.snd = ps := by
  induction ps generalizing line with
  | nil => rfl
  | cons piece ps ih => rw [numbered, List.map_cons, ih]

theorem mem_numbered {line l : Nat} {ps : List Piece} {piece : Piece} (h : (l, piece) ∈ numbered line ps) :
    piece ∈ ps := by
  rw [← map_snd_numbered line ps]
  exact List.mem_map.mpr ⟨(l, piece), h, rfl⟩

theorem exists_mem_numbered {ps : List Piece} {piece : Piece} (h : piece ∈ ps) (line : Nat) :
    ∃ l, (l, piece) ∈ numbered line ps := by
  rw [← map_snd_numbered line ps] at h
  obtain ⟨⟨l, _⟩, hm, rfl⟩ := List.mem_map.mp h
  exact ⟨l, hm⟩

/-- Every token of a text comes from one of its pieces. -/
theorem exists_piece_of_token {cs : List Char} {token : Token} (h : token ∈ textTokens cs) :
    ∃ piece ∈ pieces cs, piece.reading = .token token.kind token.literal? ∧
      token.lexeme = String.ofList piece.text := by
  obtain ⟨entry, he, ht⟩ := List.mem_filterMap.mp h
  obtain ⟨⟨line, piece⟩, hp, rfl⟩ := List.mem_map.mp he
  refine ⟨piece, mem_numbered hp, ?_⟩
  simp only [Located.token?] at ht
  split at ht
  · next kind literal? hr =>
    cases ht
    exact ⟨hr, rfl⟩
  · cases ht

/-- No text has an end marker in it. -/
theorem eofFree_textTokens (cs : List Char) : ∀ token ∈ textTokens cs, token.kind ≠ .eof := by
  intro token h hk
  obtain ⟨piece, hp, hr, -⟩ := exists_piece_of_token h
  have := cls_mem_all hp (Piece.cls?_of_reading hr)
  rw [hk] at this
  exact absurd this (by decide)

end SetScript
