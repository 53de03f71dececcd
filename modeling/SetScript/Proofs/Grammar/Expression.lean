import SetScript.Proofs.Grammar.Primary
/-!
# Expressions are read

Calls, prefix operators, the layers of infix operators and assignments are read over parsers `Nested` that read one
level less, and by that for every number of levels (`nested_reads`).
-/

namespace SetScript.Grammar

open SetScript.Parser

variable {inner : Nested} {endLine n : Nat} {stream rest : List Token} {reports : List SyntaxError}
  {token : Token} {tree : Expr}

/-! ## Calls and prefix operators -/

/-- One argument list behind an expression. -/
def argumentRound (inner : Nested) (callee : Expr) : Parser Expr := do
  let (arguments, closing) ← listUntil inner.expression .rightParen "Expect ')' after arguments"
  return .call closing callee arguments

theorem gives_argumentRound (h : NestedReads inner n) {callee : Expr} :
    (argumentRound inner callee).Gives endLine stream tree rest reports ↔
      ∃ (arguments : Derivation (.items .expression)) (closing : TokenOf .rightParen), Within n arguments ∧
        arguments.tokens ++ closing.1 :: rest = stream ∧ .call closing.1 callee arguments.tree = tree ∧
        arguments.reports = reports := by
  unfold argumentRound
  rw [gives_bind]
  constructor
  · rintro ⟨⟨arguments, closing⟩, between, before, behind, hl, hp, rfl⟩
    obtain ⟨hk, d, hd, hs⟩ := (gives_listUntil h.expression).mp hl
    obtain ⟨rfl, rfl, rfl⟩ := gives_pure.mp hp
    exact ⟨d, ⟨closing, hk⟩, hd, hs.tokens, by rw [hs.tree], by rw [hs.reports, List.append_nil]⟩
  · rintro ⟨d, closing, hd, rfl, rfl, rfl⟩
    exact ⟨(d.tree, closing.1), rest, d.reports, [], (gives_listUntil h.expression).mpr ⟨closing.2, d, hd, rfl,
      ends_tokenOf closing (by decide) rest, rfl, rfl⟩, gives_pure.mpr ⟨rfl, rfl, rfl⟩, List.append_nil _⟩

theorem callLoop_stop {callee : Expr} (hs : stream.head?.bind (lineIf .leftParen) = none) :
    Loops .calls n (· callee) stream tree rest reports ↔ callee = tree ∧ stream = rest ∧ [] = reports := by
  constructor
  · rintro ⟨d, -, hd, rfl⟩
    have ht := hd.tokens
    have hr := hd.reports
    cases d with
    | noCall => exact ⟨rfl, ht.symm, hr⟩
    | apply opening =>
      rw [← ht, Derivation.tokens, List.cons_append, List.cons_append, head_lineIf] at hs
      cases hs
  · rintro ⟨rfl, rfl, rfl⟩
    exact ⟨.noCall, Nat.zero_le n, ⟨rfl, ends_of_lineIf (ends_none _) hs, rfl, rfl⟩, rfl⟩

theorem callLoop_next (h : NestedReads inner n) {line : Nat} {callee : Expr}
    (hs : lineIf .leftParen token = some line) :
    Loops .calls n (· callee) (token :: stream) tree rest reports ↔
      ∃ callee' between before behind, (argumentRound inner callee).Gives endLine stream callee' between before ∧
        Loops .calls n (· callee') between tree rest behind ∧ before ++ behind = reports := by
  obtain ⟨hk, -⟩ := lineIf_eq_some.mp hs
  constructor
  · rintro ⟨d, hd, hsp, rfl⟩
    have ht := hsp.tokens
    cases d with
    | noCall =>
      have he := hsp.ends
      rw [show rest = token :: stream from ht, ends_cons, hk] at he
      exact absurd (List.mem_cons_self ..) he
    | apply opening arguments closing more =>
      simp only [Derivation.tokens, List.cons_append, List.append_assoc, List.cons.injEq] at ht
      obtain ⟨rfl, rfl⟩ := ht
      exact ⟨_, more.tokens ++ rest, arguments.reports, more.reports, (gives_argumentRound h).mpr
        ⟨arguments, closing, (Nat.max_le.mp hd).1, rfl, rfl, rfl⟩,
        ⟨more, (Nat.max_le.mp hd).2, ⟨rfl, hsp.ends, rfl, rfl⟩, rfl⟩, hsp.reports⟩
  · rintro ⟨_, between, before, behind, ha, ⟨more, hm, hsp, rfl⟩, rfl⟩
    obtain ⟨arguments, closing, hd, rfl, rfl, rfl⟩ := (gives_argumentRound h).mp ha
    refine ⟨.apply ⟨token, hk⟩ arguments closing more, Nat.max_le.mpr ⟨hd, hm⟩, ⟨?_, hsp.ends, rfl, ?_⟩, rfl⟩
    · rw [← hsp.tokens]
      simp
    · rw [Derivation.reports, hsp.reports]

theorem reads_call (h : NestedReads inner n) : Reads (.phrase .call) (call inner) (Within n) := by
  intro endLine stream tree rest reports
  have loop : ∀ {callee stream rest reports},
      ((iterate (lineIf .leftParen) (fun _ => argumentRound inner) callee).Gives endLine stream tree rest reports ↔
        Loops .calls n (· callee) stream tree rest reports) :=
    gives_iterate_iff (fun _ => True) (fun callee => Loops .calls n (· callee)) (fun _ => trivial)
      (fun _ => callLoop_stop) (callLoop_next h) trivial
  rw [show call inner = primary inner >>= iterate (lineIf .leftParen) (fun _ => argumentRound inner) from rfl,
    gives_bind]
  constructor
  · rintro ⟨_, between, before, behind, hp, hl, rfl⟩
    obtain ⟨callee, hd, hs⟩ := (reads_primary h _ _ _ _ _).mp hp
    obtain ⟨more, hm, hsm, rfl⟩ := loop.mp hl
    refine ⟨.call callee more, Nat.max_le.mpr ⟨hd, hm⟩, ?_, hsm.ends, ?_, ?_⟩
    · rw [Derivation.tokens, List.append_assoc, hsm.tokens, hs.tokens]
    · rw [Derivation.tree, hs.tree]
    · rw [Derivation.reports, hs.reports, hsm.reports]
  · rintro ⟨d, hd, hs⟩
    cases d with
    | call callee more =>
      refine ⟨callee.tree, more.tokens ++ rest, callee.reports, more.reports, (reads_primary h _ _ _ _ _).mpr
        ⟨callee, (Nat.max_le.mp hd).1, ?_, ends_none _, rfl, rfl⟩,
        loop.mpr ⟨more, (Nat.max_le.mp hd).2, ⟨rfl, hs.ends, rfl, rfl⟩, hs.tree⟩, hs.reports⟩
      rw [← hs.tokens, Derivation.tokens, List.append_assoc]

theorem reads_unary (h : NestedReads inner n) : Reads (.phrase .unary) (unary inner) (Within n) := by
  intro endLine stream tree rest reports
  unfold unary
  rw [gives_accept?_bind]
  constructor
  · rintro (⟨token, _, ⟨op, line⟩, rfl, ha, ho⟩ | ⟨-, hc⟩)
    · obtain ⟨op', spells, hp⟩ := Option.map_eq_some_iff.mp ha
      obtain ⟨rfl, rfl⟩ := Prod.mk.inj hp
      obtain ⟨_, between, before, behind, he, hpure, rfl⟩ := gives_bind.mp ho
      obtain ⟨e, hd, hs⟩ := (h.operand _ _ _ _ _).mp he
      obtain ⟨rfl, rfl, rfl⟩ := gives_pure.mp hpure
      refine ⟨.prefixed token op' spells e, hd, ?_, hs.ends, ?_, ?_⟩
      · rw [Derivation.tokens, List.cons_append, hs.tokens]
      · rw [Derivation.tree, hs.tree]
      · rw [Derivation.reports, hs.reports, List.append_nil]
    · obtain ⟨e, hd, hs⟩ := (reads_call h _ _ _ _ _).mp hc
      exact ⟨.bare e, hd, hs.tokens, hs.ends, hs.tree, hs.reports⟩
  · rintro ⟨d, hd, hs⟩
    have ht := hs.tokens
    have htree := hs.tree
    have hrep := hs.reports
    cases d with
    | prefixed sign op spells e =>
      refine .inl ⟨sign, e.tokens ++ rest, (op, sign), ht.symm, by rw [spells]; rfl, gives_bind.mpr
        ⟨e.tree, rest, e.reports, [], (h.operand _ _ _ _ _).mpr ⟨e, hd, rfl, hs.ends, rfl, rfl⟩,
        gives_pure.mpr ⟨htree, rfl, rfl⟩, ?_⟩⟩
      rw [List.append_nil]
      exact hrep
    | bare e =>
      refine .inr ⟨?_, (reads_call h _ _ _ _ _).mpr ⟨e, hd, ht, hs.ends, htree, hrep⟩⟩
      obtain ⟨token, more, hte, hk⟩ := e.exists_head rfl
      rw [← ht, Derivation.tokens, hte, List.cons_append, List.head?_cons, Option.bind_some, Option.map_eq_none_iff]
      exact Option.eq_none_iff_forall_ne_some.mpr fun op spells => UnaryOp.not_mem_firsts spells hk

/-! ## Expressions -/

/-- A layer of operators that the layer below has taken already reads what that one does. -/
theorem reads_redundant {l : Layer} {ops : List BinaryOp} (hops : ops ⊆ l.ops) {p : Parser Expr}
    (h : Reads (.phrase (.layer l)) p (Within n)) : Reads (.phrase (.layer l)) (leftAssoc ops p) (Within n) := by
  -- Behind what the layer has read stands none of its operators, so the second loop stops at once.
  have stops : ∀ {stream}, Ends (Phrase.layer l).continuedBy stream → stream.head?.bind (layerOp ops) = none := by
    intro stream he
    refine Option.eq_none_iff_forall_ne_some.mpr fun sign hs => ?_
    obtain ⟨token, ht, hl⟩ := Option.bind_eq_some_iff.mp hs
    obtain ⟨spells, hm, -⟩ := layerOp_eq_some.mp hl
    exact he token ht (List.mem_append_left _ (Layer.mem_kinds spells (hops hm)))
  intro endLine stream tree rest reports
  rw [show leftAssoc ops p = p >>= iterate (layerOp ops) (operandRound p) from rfl, gives_bind]
  constructor
  · rintro ⟨left, between, before, behind, hp, hl, rfl⟩
    obtain ⟨d, hd, hs⟩ := (h _ _ _ _ _).mp hp
    obtain ⟨rfl, rfl, rfl⟩ := (gives_iterate_stop (stops hs.ends)).mp hl
    exact ⟨d, hd, hs.tokens, hs.ends, hs.tree, by rw [hs.reports, List.append_nil]⟩
  · rintro ⟨d, hd, hs⟩
    exact ⟨tree, rest, reports, [], (h _ _ _ _ _).mpr ⟨d, hd, hs⟩,
      (gives_iterate_stop (stops hs.ends)).mpr ⟨rfl, rfl, rfl⟩, List.append_nil _⟩

theorem reads_equality (h : NestedReads inner n) :
    Reads (.phrase (.layer .equality)) (equality inner) (Within n) := by
  have hfactor : Reads (.phrase (.layer .factor)) (factor inner) (Within n) :=
    reads_leftAssoc (l := .factor) (reads_unary h)
  have hterm : Reads (.phrase (.layer .term)) (difference inner) (Within n) :=
    reads_redundant (l := .term) (by decide) (reads_leftAssoc (l := .term) hfactor)
  have hintersection : Reads (.phrase (.layer .intersection)) (intersection inner) (Within n) :=
    reads_leftAssoc (l := .intersection) hterm
  have hunion : Reads (.phrase (.layer .union)) (union inner) (Within n) :=
    reads_leftAssoc (l := .union) hintersection
  have hmembership : Reads (.phrase (.layer .membership)) (membership inner) (Within n) :=
    reads_leftAssoc (l := .membership) hunion
  have hcomparison : Reads (.phrase (.layer .comparison)) (comparison inner) (Within n) :=
    reads_leftAssoc (l := .comparison) hmembership
  exact reads_leftAssoc (l := .equality) hcomparison

/-- What becomes of the two sides of `=`. -/
def assigned (line : Nat) (target value : Expr) : Parser Expr :=
  match target with
  | .variable name => return .assign name value
  | target => do
    report ⟨.invalidAssignmentTarget, line⟩
    return target

theorem gives_assigned (target : Derivation (.phrase (.layer .equality))) (sign : TokenOf .equal)
    (value : Derivation .expression) :
    (assigned sign.1.line target.tree value.tree).Gives endLine stream tree rest reports ↔
      stream = rest ∧ (Derivation.assign target sign value).tree = tree ∧
        target.reports ++ value.reports ++ reports = (Derivation.assign target sign value).reports := by
  unfold assigned
  rw [Derivation.tree, Derivation.reports, List.append_cancel_left_eq]
  cases target.tree with
  | «variable» name =>
    rw [gives_pure, eq_comm (a := reports)]
    exact and_left_comm
  | _ =>
    rw [gives_bind]
    constructor
    · rintro ⟨_, _, _, _, hr, hp, rfl⟩
      obtain ⟨rfl, rfl⟩ := gives_report.mp hr
      obtain ⟨rfl, rfl, rfl⟩ := gives_pure.mp hp
      exact ⟨rfl, rfl, rfl⟩
    · rintro ⟨rfl, rfl, rfl⟩
      exact ⟨(), _, _, [], gives_report.mpr ⟨rfl, rfl⟩, gives_pure.mpr ⟨rfl, rfl, rfl⟩, rfl⟩

theorem reads_assignment (h : NestedReads inner n) : Reads .expression (assignment inner) (Within (n + 1)) := by
  intro endLine stream tree rest reports
  unfold assignment
  rw [gives_bind]
  constructor
  · rintro ⟨_, between, before, behind, ht, ha, rfl⟩
    obtain ⟨target, hd, hs⟩ := (reads_equality h _ _ _ _ _).mp ht
    rcases gives_accept?_bind.mp ha with ⟨sign, _, line, rfl, hsign, hb⟩ | ⟨hnone, hp⟩
    · obtain ⟨hk, rfl⟩ := lineIf_eq_some.mp hsign
      obtain ⟨_, between, before', behind', hv, hassign, rfl⟩ := gives_bind.mp hb
      obtain ⟨value, hdv, hsv⟩ := (h.expression _ _ _ _ _).mp hv
      rw [← hs.tree, ← hsv.tree] at hassign
      obtain ⟨rfl, htree, hrep⟩ := (gives_assigned target ⟨sign, hk⟩ value).mp hassign
      refine ⟨.assign target ⟨sign, hk⟩ value, Nat.succ_le_succ (Nat.max_le.mpr ⟨hd, hdv⟩), ?_, hsv.ends, htree, ?_⟩
      · rw [Derivation.tokens, List.append_assoc, List.cons_append, hsv.tokens, hs.tokens]
      · rw [← hrep, hs.reports, hsv.reports, List.append_assoc]
    · obtain ⟨rfl, rfl, rfl⟩ := gives_pure.mp hp
      exact ⟨.plain target, Nat.succ_le_succ hd, hs.tokens, ends_of_lineIf hs.ends hnone, hs.tree,
        by rw [List.append_nil]; exact hs.reports⟩
  · rintro ⟨d, hd, hs⟩
    have ht := hs.tokens
    have htree := hs.tree
    have hrep := hs.reports
    cases d with
    | assign target sign value =>
      obtain ⟨hdt, hdv⟩ := Nat.max_le.mp (Nat.le_of_succ_le_succ hd)
      rw [Derivation.tokens, List.append_assoc] at ht
      refine ⟨target.tree, sign.1 :: (value.tokens ++ rest), target.reports, _, (reads_equality h _ _ _ _ _).mpr
        ⟨target, hdt, ht, Derivation.ends_sign sign _, rfl, rfl⟩, gives_accept?_bind.mpr (.inl ⟨sign.1, _, sign.1.line,
          rfl, lineIf_eq_some.mpr ⟨sign.2, rfl⟩, gives_bind.mpr ⟨value.tree, rest, value.reports, _,
          (h.expression _ _ _ _ _).mpr ⟨value, hdv, rfl, hs.ends, rfl, rfl⟩,
          (gives_assigned target sign value).mpr ⟨rfl, htree, rfl⟩, rfl⟩⟩), ?_⟩
      rw [← List.append_assoc]
      exact hrep
    | plain e =>
      refine ⟨e.tree, rest, e.reports, [], (reads_equality h _ _ _ _ _).mpr ⟨e, Nat.le_of_succ_le_succ hd, ht,
        Derivation.ends_target hs.ends, rfl, rfl⟩,
        gives_accept?_bind.mpr (.inr ⟨?_, gives_pure.mpr ⟨htree, rfl, rfl⟩⟩), ?_⟩
      · exact Option.eq_none_iff_forall_ne_some.mpr fun line hl => by
          obtain ⟨token, ht, hl⟩ := Option.bind_eq_some_iff.mp hl
          exact hs.ends token ht (List.mem_cons.mpr (.inl (lineIf_eq_some.mp hl).1))
      · rw [List.append_nil]
        exact hrep

/-- The parsers with `n` levels left read what is at most `n` levels deep. -/
theorem nested_reads (n : Nat) : NestedReads (nested n) n := by
  induction n with
  | zero =>
    constructor
    · intro endLine stream tree rest reports
      refine ⟨fun hg => absurd hg not_gives_fail, ?_⟩
      rintro ⟨d, hd, -⟩
      cases d <;> exact absurd hd (Nat.not_succ_le_zero _)
    · intro endLine stream tree rest reports
      refine ⟨fun hg => absurd hg not_gives_fail, ?_⟩
      rintro ⟨d, hd, -⟩
      exact absurd hd (Nat.not_lt_zero _)
  | succ n ih =>
    constructor
    · exact reads_assignment ih
    · intro endLine stream tree rest reports
      have hu := reads_unary ih endLine stream tree rest reports
      simp only [Nat.lt_succ_iff]
      exact hu

/-- A full expression is read up to the nesting limit. -/
theorem reads_expression : Reads .expression expression (Within 100) := (nested_reads 100).expression

end SetScript.Grammar
