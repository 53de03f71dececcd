import SetScript.Proofs.Grammar.Unambiguous
/-!
# What proper derivations report

A derivation is reported nothing about exactly when a single identifier stands left of every `=` and no argument
or parameter list is over-long (`Derivation.reports_eq_nil_iff`).
-/

namespace SetScript.Grammar

namespace Derivation

/-! ## Targets of assignments -/

/-- A tree that is a variable comes from one identifier, and nothing was made of it on the way. -/
def OnlyNames : (s : Symbol) → List Token → s.Tree → Prop
  | .phrase _, tokens, tree => ∀ name, tree = .variable name → tokens.map (·.kind) = [.identifier]
  | .operands _, tokens, grow | .calls, tokens, grow =>
    ∀ left name, grow left = .variable name → tokens = [] ∧ left = .variable name
  | _, _, _ => True

theorem onlyNames {s : Symbol} (d : Derivation s) : OnlyNames s d.tokens d.tree := by
  induction d with
  | function | binding | printing | statement | named | assign | plain | noItems | items | lastItem | item
  | lastElement | element | noFilter | filtered => trivial
  | chain first rest ihf ihr | call first rest ihf ihr =>
    intro name h
    obtain ⟨hr, hf⟩ := ihr _ _ h
    rw [tokens, hr, List.append_nil]
    exact ihf name hf
  | noOperand | noCall => exact fun left name h => ⟨rfl, h⟩
  | operand _ _ _ _ _ _ _ ihr | apply _ _ _ _ _ ihr =>
    intro left name h
    obtain ⟨-, hl⟩ := ihr _ _ h
    cases hl
  | bare e ih => exact ih
  | reference x =>
    intro name _
    simp
  | prefixed | literal | group | cardinality | emptyRoster | roster | comprehension =>
    intro name h
    cases h

/-- The derivation of a layer that consists of a phrase in the next one. -/
def single {l : Layer} (d : Derivation (.phrase l.operand)) : Derivation (.phrase (.layer l)) := .chain d .noOperand

/-- The derivation of an identifier as an operand of `==`, the loosest of the layers. -/
def ofName (name : TokenOf .identifier) : Derivation (.phrase (.layer .equality)) :=
  single (l := .equality) (single (l := .comparison) (single (l := .membership) (single (l := .union)
    (single (l := .intersection) (single (l := .term) (single (l := .factor)
      (.bare (.call (.reference name) .noCall))))))))

theorem eq_ofName {d : Derivation (.phrase (.layer .equality))} (h : d.tokens.map (·.kind) = [.identifier]) :
    ∃ name, d = ofName name := by
  obtain ⟨token, ht, hk⟩ : ∃ token, d.tokens = [token] ∧ token.kind = .identifier := by
    obtain ⟨token, rest, ht, hk, hr⟩ := List.map_eq_cons_iff.mp h
    exact ⟨token, by rw [ht, List.map_eq_nil_iff.mp hr], hk⟩
  exact ⟨⟨token, hk⟩, tokens_injective ht⟩

/-- Nothing is reported about the two sides of `=` exactly when an identifier stands on the left. -/
theorem reports_assign_eq_nil {target : Derivation (.phrase (.layer .equality))} {sign : TokenOf .equal}
    {value : Derivation .expression} :
    (assign target sign value).reports = [] ↔ target.tokens.map (·.kind) = [.identifier] ∧ value.reports = [] := by
  rw [reports, List.append_eq_nil_iff, List.append_eq_nil_iff]
  constructor
  · rintro ⟨⟨-, hv⟩, ht⟩
    refine ⟨?_, hv⟩
    split at ht
    · next name h => exact target.onlyNames name h
    · cases ht
  · rintro ⟨ht, hv⟩
    obtain ⟨name, rfl⟩ := eq_ofName ht
    exact ⟨⟨rfl, hv⟩, rfl⟩

/-! ## Lists of limited length -/

/-- An argument or parameter list is not over-long, counting the items before. -/
def HasRoom : (s : Symbol) → s.Tree → Prop
  | .items _, list => list.length ≤ 255
  | .moreItems _ before, list => before ≤ 255 → before + list.length ≤ 255
  | _, _ => True

theorem reports_eq_nil {s : Symbol} (d : Derivation s) : d.reports = [] ↔ d.Proper ∧ HasRoom s d.tree := by
  induction d with
  | function _ _ _ parameters _ _ body _ _ ihp ihb =>
    simp only [reports, Proper, List.append_eq_nil_iff, ihp, ihb, HasRoom, and_true]
    exact (and_congr_left' and_comm).trans and_assoc
  | assign target sign value _ ihv =>
    rw [reports_assign_eq_nil, ihv]
    exact and_assoc.symm
  | apply _ _ _ _ iha ihr =>
    simp only [reports, Proper, List.append_eq_nil_iff, iha, ihr, HasRoom, and_true]
    exact (and_congr_left' and_comm).trans and_assoc
  | items first rest ihf ihr =>
    simp only [reports, Proper, tree, List.append_eq_nil_iff, ihf, ihr, HasRoom, and_true, List.length_cons]
    constructor
    · rintro ⟨hf, hr, hl⟩
      exact ⟨⟨hf, hr⟩, by omega⟩
    · rintro ⟨⟨hf, hr⟩, hl⟩
      exact ⟨hf, hr, by omega⟩
  | @item _ before comma next rest ihn ihr =>
    simp only [reports, Proper, tree, List.append_eq_nil_iff, ihn, ihr, HasRoom, and_true, List.length_cons]
    constructor
    · rintro ⟨⟨hb, hn⟩, hr, hl⟩
      have hb : before ≠ 255 := fun h => by simp [h] at hb
      exact ⟨⟨hn, hr⟩, by omega⟩
    · rintro ⟨⟨hn, hr⟩, hl⟩
      have hb : before ≠ 255 := by omega
      exact ⟨⟨by simp [hb], hn⟩, hr, by omega⟩
  | lastItem => simp [HasRoom]
  | _ => simp_all [HasRoom]

theorem reports_eq_nil_iff (d : Derivation .declaration) : d.reports = [] ↔ d.Proper :=
  d.reports_eq_nil.trans (iff_of_eq (and_true _))

end Derivation

end SetScript.Grammar
