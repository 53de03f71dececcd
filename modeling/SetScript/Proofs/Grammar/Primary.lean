import SetScript.Proofs.Grammar.Reading
/-!
# Primary expressions are read

Over parsers `Nested` that read expressions of `n` levels, a primary expression is read (`reads_primary`). Which set
an opening brace begins is clear behind the first expression in it (`gives_setTail`).
-/

namespace SetScript.Grammar

open SetScript.Parser

variable {inner : Nested} {endLine n : Nat} {stream rest : List Token} {reports : List SyntaxError}

/-! ## Sets -/

theorem elementLoop_stop {elements elements' : List Expr} (h : Ends Item.expression.continuedBy stream)
    (hs : stream.head?.bind (lineIf .comma) = none) :
    Loops .elements n (elements ++ ·) stream elements' rest reports ↔
      elements = elements' ∧ stream = rest ∧ [] = reports := by
  constructor
  · rintro ⟨d, -, hd, rfl⟩
    have ht := hd.tokens
    have hr := hd.reports
    cases d with
    | lastElement => exact ⟨(List.append_nil _).symm, ht.symm, hr⟩
    | element comma =>
      rw [← ht, Derivation.tokens, List.cons_append, List.cons_append, head_lineIf] at hs
      cases hs
  · rintro ⟨rfl, rfl, rfl⟩
    exact ⟨.lastElement, Nat.zero_le n, ⟨rfl, ends_of_lineIf h hs, rfl, rfl⟩, List.append_nil _⟩

theorem elementLoop_next {item : Parser Expr} (h : Reads .expression item (Within n)) {token : Token} {line : Nat}
    {elements elements' : List Expr} (hs : lineIf .comma token = some line) :
    Loops .elements n (elements ++ ·) (token :: stream) elements' rest reports ↔
      ∃ elements'' between before behind,
        (do return elements ++ [← item] : Parser (List Expr)).Gives endLine stream elements'' between before ∧
          Loops .elements n (elements'' ++ ·) between elements' rest behind ∧ before ++ behind = reports := by
  obtain ⟨hk, -⟩ := lineIf_eq_some.mp hs
  constructor
  · rintro ⟨d, hd, hsp, rfl⟩
    have ht := hsp.tokens
    cases d with
    | lastElement =>
      have he := hsp.ends
      rw [show rest = token :: stream from ht, ends_cons, hk] at he
      exact absurd (List.mem_cons_self ..) he
    | element comma next more =>
      simp only [Derivation.tokens, List.cons_append, List.append_assoc, List.cons.injEq] at ht
      obtain ⟨rfl, rfl⟩ := ht
      refine ⟨elements ++ [next.tree], more.tokens ++ rest, next.reports, more.reports,
        (gives_appended h).mpr ⟨next, (Nat.max_le.mp hd).1, ?_, rfl, rfl⟩,
        ⟨more, (Nat.max_le.mp hd).2, ⟨rfl, hsp.ends, rfl, rfl⟩, (List.append_cons _ _ _).symm⟩, hsp.reports⟩
      exact ⟨rfl, more.ends_element hsp.ends, rfl, rfl⟩
  · rintro ⟨_, between, before, behind, hi, ⟨more, hm, hsp, rfl⟩, rfl⟩
    obtain ⟨next, hd, hsn, rfl, rfl⟩ := (gives_appended h).mp hi
    refine ⟨.element ⟨token, hk⟩ next more, Nat.max_le.mpr ⟨hd, hm⟩, ⟨?_, hsp.ends, rfl, ?_⟩, List.append_cons _ _ _⟩
    · rw [Derivation.tokens, List.cons_append, List.cons_append, List.append_assoc, hsp.tokens, hsn.tokens]
    · rw [Derivation.reports, hsp.reports]

theorem gives_moreItems {item : Parser Expr} (h : Reads .expression item (Within n)) {first : Expr}
    {elements : List Expr} (he : Ends Item.expression.continuedBy stream) :
    (moreItems item [first]).Gives endLine stream elements rest reports ↔
      Loops .elements n (first :: ·) stream elements rest reports :=
  gives_iterate_iff (Ends Item.expression.continuedBy) (fun elements => Loops .elements n (elements ++ ·))
    (fun hr => by obtain ⟨_, _, hs, _⟩ := (gives_appended h).mp hr; exact hs.ends) elementLoop_stop
    (elementLoop_next h) he

/-- A closing token and then a result. -/
theorem gives_closing {α : Type} {kind : Kind} {expected : String} {a b : α} :
    (do let _ ← expect kind expected; return a : Parser α).Gives endLine stream b rest reports ↔
      (∃ closing : TokenOf kind, stream = closing.1 :: rest) ∧ a = b ∧ [] = reports := by
  rw [gives_expect_bind]
  constructor
  · rintro ⟨token, _, rfl, hk, hp⟩
    obtain ⟨rfl, rfl, rfl⟩ := gives_pure.mp hp
    exact ⟨⟨⟨token, hk⟩, rfl⟩, rfl, rfl⟩
  · rintro ⟨⟨closing, rfl⟩, rfl, rfl⟩
    exact ⟨closing.1, rest, rfl, closing.2, gives_pure.mpr ⟨rfl, rfl, rfl⟩⟩

theorem head_tokenOf {kind other : Kind} (h : kind ≠ other) (token : TokenOf kind) (tokens : List Token) :
    (token.1 :: tokens).head?.bind (lineIf other) = none := by
  rw [List.head?_cons, Option.bind_some, lineIf, if_neg (by rwa [token.2])]

/-- What follows the domain of a comprehension. -/
theorem gives_filter (h : NestedReads inner n) {expected : String} {make : Option Expr → Expr} {tree : Expr} :
    (do
      let filter? ← match ← accept? (lineIf .comma) with
        | some _ => some <$> inner.expression
        | none => pure none
      let _ ← expect .rightBrace expected
      return make filter? : Parser Expr).Gives endLine stream tree rest reports ↔
      ∃ (filter : Derivation .filter) (closing : TokenOf .rightBrace), Within n filter ∧
        filter.tokens ++ closing.1 :: rest = stream ∧ make filter.tree = tree ∧ filter.reports = reports := by
  rw [gives_accept?_bind]
  constructor
  · rintro (⟨comma, _, _, rfl, hc, hcomma⟩ | ⟨-, hnone⟩)
    · obtain ⟨_, left, before, behind, hf, hclosing, rfl⟩ := gives_bind.mp hcomma
      obtain ⟨_, left', _, _, hmap, hpure, rfl⟩ := gives_bind.mp hf
      obtain ⟨filter, hfil, hs⟩ := (h.expression _ _ _ _ _).mp hmap
      obtain ⟨rfl, rfl, rfl⟩ := gives_pure.mp hpure
      obtain ⟨⟨closing, rfl⟩, rfl, rfl⟩ := gives_closing.mp hclosing
      refine ⟨.filtered ⟨comma, (lineIf_eq_some.mp hc).1⟩ filter, closing, hfil, ?_, ?_, ?_⟩
      · rw [Derivation.tokens, List.cons_append, hs.tokens]
      · rw [Derivation.tree, hs.tree]
      · rw [Derivation.reports, hs.reports, List.append_nil, List.append_nil]
    · obtain ⟨_, left, _, _, hf, hclosing, rfl⟩ := gives_bind.mp hnone
      obtain ⟨rfl, rfl, rfl⟩ := gives_pure.mp hf
      obtain ⟨⟨closing, rfl⟩, rfl, rfl⟩ := gives_closing.mp hclosing
      exact ⟨.noFilter, closing, Nat.zero_le n, rfl, rfl, rfl⟩
  · rintro ⟨filter, closing, hfil, rfl, rfl, rfl⟩
    have hclosing : ∀ {filter?}, (do let _ ← expect .rightBrace expected; return make filter? : Parser Expr).Gives
        endLine (closing.1 :: rest) (make filter?) rest [] := gives_closing.mpr ⟨⟨closing, rfl⟩, rfl, rfl⟩
    cases filter with
    | noFilter =>
      refine .inr ⟨head_tokenOf (by decide) closing rest, gives_bind.mpr ⟨none, _, [], [],
        gives_pure.mpr ⟨rfl, rfl, rfl⟩, hclosing, rfl⟩⟩
    | filtered comma filter =>
      refine .inl ⟨comma.1, _, comma.1.line, rfl, lineIf_eq_some.mpr ⟨comma.2, rfl⟩, gives_bind.mpr
        ⟨some filter.tree, closing.1 :: rest, filter.reports, [], gives_bind.mpr ⟨filter.tree, closing.1 :: rest,
          filter.reports, [], ?_, gives_pure.mpr ⟨rfl, rfl, rfl⟩, List.append_nil _⟩, hclosing, List.append_nil _⟩⟩
      exact (h.expression _ _ _ _ _).mpr ⟨filter, hfil, rfl, ends_tokenOf closing (by decide) rest, rfl, rfl⟩

/-- What follows the bar of a comprehension. -/
theorem gives_comprehensionTail (h : NestedReads inner n) {result tree : Expr} :
    (comprehensionTail inner result).Gives endLine stream tree rest reports ↔
      ∃ (bound : Derivation .name) (word : TokenOf .inWord) (domain : Derivation .expression)
        (filter : Derivation .filter) (closing : TokenOf .rightBrace), Within n domain ∧ Within n filter ∧
        bound.tokens ++ word.1 :: (domain.tokens ++ (filter.tokens ++ closing.1 :: rest)) = stream ∧
        .comprehension result bound.tree domain.tree filter.tree = tree ∧
        domain.reports ++ filter.reports = reports := by
  unfold comprehensionTail
  rw [gives_expect_bind]
  constructor
  · rintro ⟨bound, _, rfl, hb, hbound⟩
    obtain ⟨word, _, rfl, hw, hword⟩ := gives_expect_bind.mp hbound
    obtain ⟨_, between, before, behind, hd, hdomain, rfl⟩ := gives_bind.mp hword
    obtain ⟨domain, hdom, hs⟩ := (h.expression _ _ _ _ _).mp hd
    obtain ⟨filter, closing, hfil, rfl, rfl, rfl⟩ := (gives_filter h).mp hdomain
    refine ⟨.named ⟨bound, hb⟩, ⟨word, hw⟩, domain, filter, closing, hdom, hfil, ?_, ?_, ?_⟩
    · rw [hs.tokens]
      rfl
    · rw [hs.tree]
      rfl
    · rw [hs.reports]
  · rintro ⟨bound, word, domain, filter, closing, hdom, hfil, rfl, rfl, rfl⟩
    cases bound with
    | named bound =>
      refine ⟨bound.1, _, rfl, bound.2, gives_expect_bind.mpr ⟨word.1, _, rfl, word.2, gives_bind.mpr ⟨domain.tree,
        filter.tokens ++ closing.1 :: rest, domain.reports, filter.reports, (h.expression _ _ _ _ _).mpr ?_,
        (gives_filter h).mpr ⟨filter, closing, hfil, rfl, rfl, rfl⟩, rfl⟩⟩⟩
      exact ⟨domain, hdom, rfl, filter.ends_filter (ends_tokenOf closing (by decide) rest), rfl, rfl⟩

/-- An expression begins with no closing brace. -/
theorem head_expression (e : Derivation .expression) (rest : List Token) :
    (e.tokens ++ rest).head?.bind (lineIf .rightBrace) = none := by
  obtain ⟨token, more, ht, hk⟩ := e.exists_head rfl
  rw [ht, List.cons_append, List.head?_cons, Option.bind_some, lineIf, if_neg]
  intro hp
  rw [hp] at hk
  exact absurd hk (by decide)

/-- The elements of a roster are followed by no bar. -/
theorem head_elements (d : Derivation .elements) (closing : TokenOf .rightBrace) (rest : List Token) :
    (d.tokens ++ closing.1 :: rest).head?.bind (lineIf .pipe) = none := by
  cases d with
  | lastElement => exact head_tokenOf (by decide) closing rest
  | element comma => exact head_tokenOf (by decide) comma _

/-- What follows the opening brace of a set. -/
theorem gives_setTail (h : NestedReads inner n) (opening : TokenOf .leftBrace) {tree : Expr} :
    (setTail inner).Gives endLine stream tree rest reports ↔
      ∃ d : Derivation (.phrase .primary), Within n d ∧ d.Spells (opening.1 :: stream) tree rest reports := by
  unfold setTail
  rw [gives_accept?_bind]
  constructor
  · rintro (⟨closing, _, _, rfl, hc, hp⟩ | ⟨-, hfirst⟩)
    · obtain ⟨rfl, rfl, rfl⟩ := gives_pure.mp hp
      exact ⟨.emptyRoster opening ⟨closing, (lineIf_eq_some.mp hc).1⟩, Nat.zero_le n, rfl, ends_none _, rfl, rfl⟩
    obtain ⟨_, between, before, behind, hf, hbar, rfl⟩ := gives_bind.mp hfirst
    obtain ⟨first, hd, hs⟩ := (h.expression _ _ _ _ _).mp hf
    rcases gives_accept?_bind.mp hbar with ⟨bar, _, _, rfl, hb, hcomp⟩ | ⟨-, helements⟩
    · obtain ⟨bound, word, domain, filter, closing, hdom, hfil, rfl, rfl, rfl⟩ := (gives_comprehensionTail h).mp hcomp
      refine ⟨.comprehension opening first ⟨bar, (lineIf_eq_some.mp hb).1⟩ bound word domain filter closing,
        Nat.max_le.mpr ⟨hd, Nat.max_le.mpr ⟨hdom, hfil⟩⟩, ?_, ends_none _, ?_, ?_⟩
      · rw [← hs.tokens]
        simp
      · rw [← hs.tree]
        rfl
      · rw [← hs.reports, Derivation.reports, List.append_assoc]
    · obtain ⟨_, between', before', behind', hm, hclosing, rfl⟩ := gives_bind.mp helements
      obtain ⟨more, hmore, hsm, rfl⟩ := (gives_moreItems h.expression hs.ends).mp hm
      obtain ⟨⟨closing, rfl⟩, rfl, rfl⟩ := gives_closing.mp hclosing
      refine ⟨.roster opening first more closing, Nat.max_le.mpr ⟨hd, hmore⟩, ?_, ends_none _, ?_, ?_⟩
      · rw [← hs.tokens, ← hsm.tokens]
        simp
      · rw [← hs.tree]
        rfl
      · rw [Derivation.reports, hs.reports, hsm.reports, List.append_nil]
  · rintro ⟨d, hd, hs⟩
    have ht := hs.tokens
    have htree := hs.tree
    have hrep := hs.reports
    have hk := head_kind_eq ht
    cases d with
    | emptyRoster opening' closing =>
      simp only [Derivation.tokens, List.cons_append, List.nil_append, List.cons.injEq] at ht
      obtain ⟨-, rfl⟩ := ht
      exact .inl ⟨closing.1, rest, closing.1.line, rfl, lineIf_eq_some.mpr ⟨closing.2, rfl⟩,
        gives_pure.mpr ⟨htree, rfl, hrep⟩⟩
    | roster opening' first more closing =>
      simp only [Derivation.tokens, List.cons_append, List.append_assoc, List.nil_append, List.cons.injEq] at ht
      obtain ⟨-, rfl⟩ := ht
      have he := more.ends_element (ends_tokenOf closing (by decide) rest)
      refine .inr ⟨head_expression _ _, gives_bind.mpr ⟨first.tree, more.tokens ++ closing.1 :: rest, first.reports,
        more.reports, (h.expression _ _ _ _ _).mpr ⟨first, (Nat.max_le.mp hd).1, rfl, he, rfl, rfl⟩,
        gives_accept?_bind.mpr (.inr ⟨head_elements more closing rest, gives_bind.mpr ⟨first.tree :: more.tree,
          closing.1 :: rest, more.reports, [], (gives_moreItems h.expression he).mpr ⟨more, (Nat.max_le.mp hd).2, ?_,
          rfl⟩, gives_closing.mpr ⟨⟨closing, rfl⟩, htree, rfl⟩, List.append_nil _⟩⟩), hrep⟩⟩
      exact ⟨rfl, ends_tokenOf closing (by decide) rest, rfl, rfl⟩
    | comprehension opening' result bar bound word domain filter closing =>
      simp only [Derivation.tokens, List.cons_append, List.append_assoc, List.nil_append, List.cons.injEq] at ht
      obtain ⟨-, rfl⟩ := ht
      obtain ⟨hres, hrest⟩ := Nat.max_le.mp hd
      refine .inr ⟨head_expression _ _, gives_bind.mpr ⟨result.tree, _, result.reports,
        domain.reports ++ filter.reports, (h.expression _ _ _ _ _).mpr
        ⟨result, hres, rfl, ends_tokenOf bar (by decide) _, rfl, rfl⟩, gives_accept?_bind.mpr (.inl ⟨bar.1, _,
          bar.1.line, rfl, lineIf_eq_some.mpr ⟨bar.2, rfl⟩, (gives_comprehensionTail h).mpr ⟨bound, word, domain,
          filter, closing, (Nat.max_le.mp hrest).1, (Nat.max_le.mp hrest).2, rfl, htree, rfl⟩⟩), ?_⟩⟩
      rw [← hrep, Derivation.reports, List.append_assoc]
    | literal token value hl =>
      exact absurd hl (by rw [show token.kind = _ from (Option.some.inj hk).trans opening.2]; decide)
    | _ => exact absurd hk (by simp)

/-! ## Primary expressions -/

variable {token : Token} {tree : Expr}

theorem not_gives_primary (hk : token.kind ∉ Phrase.primary.firsts) :
    ¬ (primary inner).Gives endLine (token :: stream) tree rest reports := by
  unfold primary
  rw [gives_peek?_bind]
  intro hg
  simp only [List.head?_cons] at hg
  split at hg
  case h_9 => exact not_gives_unexpected hg
  all_goals next h => exact hk (by rw [h]; decide)

theorem gives_literal (hl : isLiteral token.kind = true) :
    (primary inner).Gives endLine (token :: stream) tree rest reports ↔
      ∃ value, token.literal? = some value ∧ .literal value = tree ∧ stream = rest ∧ [] = reports := by
  unfold primary
  rw [gives_peek?_bind]
  have hk : token.kind = .number ∨ token.kind = .string ∨ token.kind = .trueWord ∨ token.kind = .falseWord := by
    simpa [isLiteral] using hl
  cases value? : token.literal? with
  | none => rcases hk with hk | hk | hk | hk <;> simp [hk, value?, not_gives_unexpected]
  | some value => rcases hk with hk | hk | hk | hk <;> simp [hk, value?, gives_skip_bind, gives_pure]

theorem gives_reference (name : TokenOf .identifier) :
    (primary inner).Gives endLine (name.1 :: stream) tree rest reports ↔
      .variable name.1 = tree ∧ stream = rest ∧ [] = reports := by
  unfold primary
  rw [gives_peek?_bind]
  simp only [List.head?_cons, name.2, gives_skip_bind, gives_pure]

/-- An expression and its closing token. -/
theorem gives_enclosed (h : NestedReads inner n) {kind : Kind} (hk : kind ∉ Item.expression.continuedBy)
    {expected : String} {make : Expr → Expr} :
    (do let e ← inner.expression; let _ ← expect kind expected; return make e : Parser Expr).Gives endLine stream tree
        rest reports ↔
      ∃ (e : Derivation .expression) (closing : TokenOf kind), Within n e ∧
        e.tokens ++ closing.1 :: rest = stream ∧ make e.tree = tree ∧ e.reports = reports := by
  rw [gives_bind]
  constructor
  · rintro ⟨_, between, before, behind, he, hclosing, rfl⟩
    obtain ⟨e, hd, hs⟩ := (h.expression _ _ _ _ _).mp he
    obtain ⟨⟨closing, rfl⟩, rfl, rfl⟩ := gives_closing.mp hclosing
    exact ⟨e, closing, hd, hs.tokens, by rw [hs.tree], by rw [hs.reports, List.append_nil]⟩
  · rintro ⟨e, closing, hd, rfl, rfl, rfl⟩
    exact ⟨e.tree, closing.1 :: rest, e.reports, [], (h.expression _ _ _ _ _).mpr
      ⟨e, hd, rfl, ends_tokenOf closing hk rest, rfl, rfl⟩, gives_closing.mpr ⟨⟨closing, rfl⟩, rfl, rfl⟩,
      List.append_nil _⟩

theorem gives_group (h : NestedReads inner n) (opening : TokenOf .leftParen) :
    (primary inner).Gives endLine (opening.1 :: stream) tree rest reports ↔
      ∃ (e : Derivation .expression) (closing : TokenOf .rightParen), Within n e ∧
        e.tokens ++ closing.1 :: rest = stream ∧ .group e.tree = tree ∧ e.reports = reports := by
  unfold primary
  rw [gives_peek?_bind]
  simp only [List.head?_cons, opening.2, gives_skip_bind]
  exact gives_enclosed h (by decide)

theorem gives_cardinality (h : NestedReads inner n) (opening : TokenOf .pipe) :
    (primary inner).Gives endLine (opening.1 :: stream) tree rest reports ↔
      ∃ (e : Derivation .expression) (closing : TokenOf .pipe), Within n e ∧
        e.tokens ++ closing.1 :: rest = stream ∧ .cardinality opening.1 e.tree = tree ∧ e.reports = reports := by
  unfold primary
  rw [gives_peek?_bind]
  simp only [List.head?_cons, opening.2, gives_skip_bind]
  exact gives_enclosed h (by decide)

theorem gives_set (h : NestedReads inner n) (opening : TokenOf .leftBrace) :
    (primary inner).Gives endLine (opening.1 :: stream) tree rest reports ↔
      ∃ d : Derivation (.phrase .primary), Within n d ∧ d.Spells (opening.1 :: stream) tree rest reports := by
  unfold primary
  rw [gives_peek?_bind]
  simp only [List.head?_cons, opening.2, gives_skip_bind]
  exact gives_setTail h opening

theorem reads_primary (h : NestedReads inner n) : Reads (.phrase .primary) (primary inner) (Within n) := by
  intro endLine stream tree rest reports
  cases stream with
  | nil =>
    refine ⟨fun hg => absurd (gives_peek?_bind.mp hg) not_gives_unexpected, ?_⟩
    rintro ⟨d, -, hs⟩
    obtain ⟨token, more, ht, -⟩ := d.exists_head rfl
    exact absurd (ht ▸ hs.tokens) (List.cons_ne_nil _ _)
  | cons token stream =>
    constructor
    · intro hg
      by_cases hl : isLiteral token.kind = true
      · obtain ⟨value, stands, rfl, rfl, rfl⟩ := (gives_literal hl).mp hg
        exact ⟨.literal token value hl stands, Nat.zero_le n, rfl, ends_none _, rfl, rfl⟩
      by_cases hn : token.kind = .identifier
      · obtain ⟨rfl, rfl, rfl⟩ := (gives_reference ⟨token, hn⟩).mp hg
        exact ⟨.reference ⟨token, hn⟩, Nat.zero_le n, rfl, ends_none _, rfl, rfl⟩
      by_cases hp : token.kind = .leftParen
      · obtain ⟨e, closing, hd, rfl, rfl, rfl⟩ := (gives_group h ⟨token, hp⟩).mp hg
        exact ⟨.group ⟨token, hp⟩ e closing, hd, by simp, ends_none _, rfl, rfl⟩
      by_cases hb : token.kind = .pipe
      · obtain ⟨e, closing, hd, rfl, rfl, rfl⟩ := (gives_cardinality h ⟨token, hb⟩).mp hg
        exact ⟨.cardinality ⟨token, hb⟩ e closing, hd, by simp, ends_none _, rfl, rfl⟩
      by_cases hs : token.kind = .leftBrace
      · exact (gives_set h ⟨token, hs⟩).mp hg
      refine absurd hg (not_gives_primary fun hk => ?_)
      simp_all [Phrase.firsts, isLiteral]
    · rintro ⟨d, hd, hs⟩
      have ht := hs.tokens
      have htree := hs.tree
      have hrep := hs.reports
      cases d with
      | literal token value hl stands =>
        obtain ⟨rfl, rfl⟩ := List.cons.inj ht
        exact (gives_literal hl).mpr ⟨value, stands, htree, rfl, hrep⟩
      | reference name =>
        obtain ⟨rfl, rfl⟩ := List.cons.inj ht
        exact (gives_reference name).mpr ⟨htree, rfl, hrep⟩
      | group opening e closing =>
        simp only [Derivation.tokens, List.cons_append, List.append_assoc, List.nil_append, List.cons.injEq] at ht
        obtain ⟨rfl, rfl⟩ := ht
        exact (gives_group h opening).mpr ⟨e, closing, hd, rfl, htree, hrep⟩
      | cardinality opening e closing =>
        simp only [Derivation.tokens, List.cons_append, List.append_assoc, List.nil_append, List.cons.injEq] at ht
        obtain ⟨rfl, rfl⟩ := ht
        exact (gives_cardinality h opening).mpr ⟨e, closing, hd, rfl, htree, hrep⟩
      | emptyRoster opening | roster opening | comprehension opening =>
        obtain rfl : opening.1 = token := (List.cons.inj ht).1
        exact (gives_set h opening).mpr ⟨_, hd, hs⟩

end SetScript.Grammar
