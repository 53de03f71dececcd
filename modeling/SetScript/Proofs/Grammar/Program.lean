import SetScript.Proofs.Grammar.Proper
import SetScript.Proofs.Grammar.Expression
import SetScript.Proofs.Parser.Recovery
/-!
# The parser accepts the grammar

A stream without end markers is read without any report exactly when it is a sequence of proper declarations
that keep the nesting limit. Then there is only one such sequence, and reading gives its trees.
-/

namespace SetScript.Grammar

open SetScript.Parser

variable {endLine n : Nat} {stream rest : List Token} {reports : List SyntaxError} {statement : Statement}

/-! ## Declarations -/

theorem reads_name (expected : String) : Reads .name (name expected) (Within n) := by
  intro endLine stream tree rest reports
  unfold name
  rw [gives_expect]
  constructor
  · rintro ⟨rfl, hk, rfl⟩
    exact ⟨.named ⟨tree, hk⟩, Nat.zero_le n, rfl, ends_none _, rfl, rfl⟩
  · rintro ⟨d, -, hs⟩
    cases d with
    | named token =>
      obtain rfl : token.1 = tree := hs.tree
      exact ⟨hs.tokens.symm, token.2, hs.reports⟩

theorem gives_closedBy {α : Type} {p : Parser α} {kind : Kind} {expected : String} {a : α} :
    (closedBy p kind expected).Gives endLine stream a rest reports ↔
      ∃ closing : TokenOf kind, p.Gives endLine stream a (closing.1 :: rest) reports := by
  unfold closedBy
  rw [gives_bind]
  constructor
  · rintro ⟨_, between, before, behind, hp, hc, rfl⟩
    obtain ⟨⟨closing, rfl⟩, rfl, rfl⟩ := gives_closing.mp hc
    exact ⟨closing, by rwa [List.append_nil]⟩
  · rintro ⟨closing, hp⟩
    exact ⟨a, closing.1 :: rest, reports, [], hp, gives_closing.mpr ⟨⟨closing, rfl⟩, rfl, rfl⟩, List.append_nil _⟩

/-- A full expression that something is made of. -/
theorem gives_value {α : Type} {make : Expr → α} {a : α} :
    (do return make (← expression) : Parser α).Gives endLine stream a rest reports ↔
      ∃ value : Derivation .expression, Within 100 value ∧ value.Spells stream value.tree rest reports ∧
        make value.tree = a := by
  rw [gives_bind]
  constructor
  · rintro ⟨_, between, before, behind, hv, hp, rfl⟩
    obtain ⟨value, hd, hs⟩ := (reads_expression _ _ _ _ _).mp hv
    obtain ⟨rfl, rfl, rfl⟩ := gives_pure.mp hp
    exact ⟨value, hd, ⟨hs.tokens, hs.ends, rfl, by rw [hs.reports, List.append_nil]⟩, by rw [hs.tree]⟩
  · rintro ⟨value, hd, hs, rfl⟩
    exact ⟨value.tree, rest, reports, [], (reads_expression _ _ _ _ _).mpr ⟨value, hd, hs⟩,
      gives_pure.mpr ⟨rfl, rfl, rfl⟩, List.append_nil _⟩

theorem gives_name_bind {α : Type} {expected : String} {f : Token → Parser α} {a : α} :
    (name expected >>= f).Gives endLine stream a rest reports ↔
      ∃ (x : Derivation .name) (between : List Token), x.tokens ++ between = stream ∧
        (f x.tree).Gives endLine between a rest reports := by
  rw [gives_bind]
  constructor
  · rintro ⟨_, between, before, behind, hn, hf, rfl⟩
    obtain ⟨x, -, hs⟩ := (reads_name (n := 0) _ _ _ _ _ _).mp hn
    refine ⟨x, between, hs.tokens, ?_⟩
    rw [hs.tree, ← hs.reports]
    cases x
    exact hf
  · rintro ⟨x, between, rfl, hf⟩
    cases x with
    | named token =>
      exact ⟨_, between, [], reports, (reads_name (n := 0) _ _ _ _ _ _).mpr
        ⟨.named token, Nat.zero_le 0, rfl, ends_none _, rfl, rfl⟩, hf, rfl⟩

theorem gives_letTail :
    letTail.Gives endLine stream statement rest reports ↔
      ∃ (name : Derivation .name) (sign : TokenOf .equal) (value : Derivation .expression)
        (semicolon : TokenOf .semicolon), Within 100 value ∧
        name.tokens ++ sign.1 :: (value.tokens ++ semicolon.1 :: rest) = stream ∧
        .let name.tree value.tree = statement ∧ value.reports = reports := by
  unfold letTail
  rw [gives_closedBy]
  constructor
  · rintro ⟨closing, hb⟩
    obtain ⟨x, _, rfl, hx⟩ := gives_name_bind.mp hb
    obtain ⟨sign, _, rfl, hk, hsign⟩ := gives_expect_bind.mp hx
    obtain ⟨value, hd, hs, rfl⟩ := gives_value.mp hsign
    exact ⟨x, ⟨sign, hk⟩, value, closing, hd, by rw [hs.tokens], rfl, hs.reports⟩
  · rintro ⟨x, sign, value, closing, hd, rfl, rfl, rfl⟩
    exact ⟨closing, gives_name_bind.mpr ⟨x, _, rfl, gives_expect_bind.mpr ⟨sign.1, _, rfl, sign.2, gives_value.mpr
      ⟨value, hd, ⟨rfl, ends_tokenOf closing (by decide) rest, rfl, rfl⟩, rfl⟩⟩⟩⟩

theorem gives_functionTail :
    functionTail.Gives endLine stream statement rest reports ↔
      ∃ (name : Derivation .name) (opening : TokenOf .leftParen) (parameters : Derivation (.items .name))
        (closing : TokenOf .rightParen) (sign : TokenOf .equal) (body : Derivation .expression)
        (semicolon : TokenOf .semicolon), Within 100 body ∧
        name.tokens ++ opening.1 :: (parameters.tokens ++ closing.1 :: sign.1 ::
          (body.tokens ++ semicolon.1 :: rest)) = stream ∧
        .function name.tree parameters.tree body.tree = statement ∧ parameters.reports ++ body.reports = reports := by
  unfold functionTail
  rw [gives_closedBy]
  constructor
  · rintro ⟨semicolon, hb⟩
    obtain ⟨x, _, rfl, hx⟩ := gives_name_bind.mp hb
    obtain ⟨opening, _, rfl, ho, hopening⟩ := gives_expect_bind.mp hx
    obtain ⟨⟨_, closing⟩, between, before, behind, hl, hlist, rfl⟩ := gives_bind.mp hopening
    obtain ⟨hc, parameters, -, hs⟩ := (gives_listUntil (reads_name (n := 0) _)).mp hl
    obtain ⟨sign, _, rfl, hk, hsign⟩ := gives_expect_bind.mp hlist
    obtain ⟨body, hd, hsb, rfl⟩ := gives_value.mp hsign
    refine ⟨x, ⟨opening, ho⟩, parameters, ⟨closing, hc⟩, ⟨sign, hk⟩, body, semicolon, hd, ?_, ?_, ?_⟩
    · rw [hsb.tokens, hs.tokens]
    · rw [hs.tree]
    · rw [hs.reports, hsb.reports]
  · rintro ⟨x, opening, parameters, closing, sign, body, semicolon, hd, rfl, rfl, rfl⟩
    have hlist : Reads .name (name "Expect parameter name") (Within parameters.depth) := reads_name _
    exact ⟨semicolon, gives_name_bind.mpr ⟨x, _, rfl, gives_expect_bind.mpr ⟨opening.1, _, rfl, opening.2,
      gives_bind.mpr ⟨(parameters.tree, closing.1), _, parameters.reports, body.reports, (gives_listUntil hlist).mpr
        ⟨closing.2, parameters, Nat.le_refl _, rfl, ends_tokenOf closing (by decide) _, rfl, rfl⟩,
        gives_expect_bind.mpr ⟨sign.1, _, rfl, sign.2, gives_value.mpr
          ⟨body, hd, ⟨rfl, ends_tokenOf semicolon (by decide) rest, rfl, rfl⟩, rfl⟩⟩, rfl⟩⟩⟩⟩

theorem gives_closedValue {expected : String} {make : Expr → Statement} :
    (closedBy (do return make (← expression)) .semicolon expected).Gives endLine stream statement rest reports ↔
      ∃ (value : Derivation .expression) (semicolon : TokenOf .semicolon), Within 100 value ∧
        value.tokens ++ semicolon.1 :: rest = stream ∧ make value.tree = statement ∧ value.reports = reports := by
  rw [gives_closedBy]
  constructor
  · rintro ⟨closing, hb⟩
    obtain ⟨value, hd, hs, rfl⟩ := gives_value.mp hb
    exact ⟨value, closing, hd, hs.tokens, rfl, hs.reports⟩
  · rintro ⟨value, closing, hd, rfl, rfl, rfl⟩
    exact ⟨closing, gives_value.mpr ⟨value, hd, ⟨rfl, ends_tokenOf closing (by decide) rest, rfl, rfl⟩, rfl⟩⟩

theorem afterWord?_eq_some {kind : Kind} {tail : Parser Statement} (h : afterWord? kind = some tail) :
    (kind = .defWord ∧ functionTail = tail) ∨ (kind = .letWord ∧ letTail = tail) ∨
      (kind = .printWord ∧ printTail = tail) := by
  unfold afterWord? at h
  split at h <;> simp_all

/-- None of the three words begins an expression. -/
theorem head_value (value : Derivation .expression) (rest : List Token) :
    ((value.tokens ++ rest).head?.bind fun token => afterWord? token.kind) = none := by
  obtain ⟨token, more, hv, hk⟩ := value.exists_head rfl
  rw [hv, List.cons_append, List.head?_cons, Option.bind_some]
  refine Option.eq_none_iff_forall_ne_some.mpr fun tail hw => ?_
  rcases afterWord?_eq_some hw with ⟨h, -⟩ | ⟨h, -⟩ | ⟨h, -⟩ <;> exact absurd hk (by rw [h]; decide)

/-- A declaration is read when its expressions keep the nesting limit. -/
theorem reads_declaration : Reads .declaration declaration (Within 100) := by
  intro endLine stream statement rest reports
  unfold declaration
  rw [gives_accept?_bind]
  constructor
  · rintro (⟨token, _, tail, rfl, hw, ht⟩ | ⟨-, ht⟩)
    · rcases afterWord?_eq_some hw with ⟨hk, rfl⟩ | ⟨hk, rfl⟩ | ⟨hk, rfl⟩
      · obtain ⟨x, opening, parameters, closing, sign, body, semicolon, hd, rfl, rfl, rfl⟩ := gives_functionTail.mp ht
        exact ⟨.function ⟨token, hk⟩ x opening parameters closing sign body semicolon, hd, by simp, ends_none _, rfl,
          rfl⟩
      · obtain ⟨x, sign, value, semicolon, hd, rfl, rfl, rfl⟩ := gives_letTail.mp ht
        exact ⟨.binding ⟨token, hk⟩ x sign value semicolon, hd, by simp, ends_none _, rfl, rfl⟩
      · obtain ⟨value, semicolon, hd, rfl, rfl, rfl⟩ := gives_closedValue.mp ht
        exact ⟨.printing ⟨token, hk⟩ value semicolon, hd, by simp, ends_none _, rfl, rfl⟩
    · obtain ⟨value, semicolon, hd, rfl, rfl, rfl⟩ := gives_closedValue.mp ht
      exact ⟨.statement value semicolon, hd, by simp, ends_none _, rfl, rfl⟩
  · rintro ⟨d, hd, hs⟩
    have ht := hs.tokens
    have htree := hs.tree
    have hrep := hs.reports
    cases d with
    | function word x opening parameters closing sign body semicolon =>
      simp only [Derivation.tokens, List.cons_append, List.append_assoc, List.nil_append] at ht
      exact .inl ⟨word.1, _, functionTail, ht.symm, by rw [word.2]; rfl, gives_functionTail.mpr
        ⟨x, opening, parameters, closing, sign, body, semicolon, hd, rfl, htree, hrep⟩⟩
    | binding word x sign value semicolon =>
      simp only [Derivation.tokens, List.cons_append, List.append_assoc, List.nil_append] at ht
      exact .inl ⟨word.1, _, letTail, ht.symm, by rw [word.2]; rfl, gives_letTail.mpr
        ⟨x, sign, value, semicolon, hd, rfl, htree, hrep⟩⟩
    | printing word value semicolon =>
      simp only [Derivation.tokens, List.cons_append, List.append_assoc, List.nil_append] at ht
      exact .inl ⟨word.1, _, printTail, ht.symm, by rw [word.2]; rfl, gives_closedValue.mpr
        ⟨value, semicolon, hd, rfl, htree, hrep⟩⟩
    | statement value semicolon =>
      simp only [Derivation.tokens, List.append_assoc, List.cons_append, List.nil_append] at ht
      exact .inr ⟨ht ▸ head_value value _, gives_closedValue.mpr ⟨value, semicolon, hd, ht, htree, hrep⟩⟩

/-- A declaration ends with its `;`. -/
theorem Derivation.closed_append (d : Derivation .declaration) (before : List Token) : Closed (before ++ d.tokens) := by
  intro last hl
  cases d with
  | function _ _ _ _ _ _ _ semicolon | binding _ _ _ _ semicolon | printing _ _ semicolon | statement _ semicolon =>
    rw [Derivation.tokens, ← List.append_assoc, List.getLast?_concat] at hl
    cases hl
    exact semicolon.2

/-! ## Turns -/

theorem turn_of_derivation {d : Derivation .declaration} (hd : Within 100 d) (endLine : Nat) (rest : List Token) :
    turn endLine (d.tokens ++ rest) = (some d.tree, d.reports, rest) := by
  have := (reads_declaration endLine (d.tokens ++ rest) _ _ _).mpr ⟨d, hd, rfl, ends_none _, rfl, rfl⟩
  rw [turn, this]

/-- A turn that gives a statement has read a declaration. -/
theorem derivation_of_turn (h : (turn endLine stream).1 = some statement) :
    ∃ d : Derivation .declaration, Within 100 d ∧ d.tokens ++ (turn endLine stream).2.2 = stream ∧
      d.tree = statement ∧ d.reports = (turn endLine stream).2.1 := by
  obtain ⟨reply, hr⟩ : ∃ reply, declaration.run endLine stream = reply := ⟨_, rfl⟩
  obtain ⟨result, rest, reports⟩ := reply
  simp only [turn, hr] at h ⊢
  cases result with
  | error e => cases h
  | ok s =>
    obtain rfl : s = statement := Option.some.inj h
    obtain ⟨d, hd, hs⟩ := (reads_declaration _ _ _ _ _).mp hr
    exact ⟨d, hd, hs.tokens, hs.tree, hs.reports⟩

/-- A turn that gives no statement has an error. -/
theorem turn_errors (h : (turn endLine stream).1 = none) : (turn endLine stream).2.1 ≠ [] := by
  unfold turn at h ⊢
  dsimp only at h ⊢
  split at h
  · cases h
  · simp_all

/-! ## Whole programs -/

theorem declarations_flatMap {ds : List (Derivation .declaration)} (h : ∀ d ∈ ds, Within 100 d) (endLine : Nat) :
    declarations endLine (ds.flatMap Derivation.tokens) =
      ⟨ds.map Derivation.tree, ds.flatMap Derivation.reports⟩ := by
  induction ds with
  | nil => rw [List.flatMap_nil, declarations]; rfl
  | cons d ds ih =>
    obtain ⟨token, more, ht, -⟩ := d.exists_head rfl
    rw [List.forall_mem_cons] at h
    rw [List.flatMap_cons, ht, List.cons_append, declarations, ← List.cons_append, ← ht, turn_of_derivation h.1, ih h.2]
    rfl

/-- What is read without an error is a sequence of declarations. -/
theorem derivations_of_declarations (h : (declarations endLine stream).errors = []) :
    ∃ ds : List (Derivation .declaration), (∀ d ∈ ds, Within 100 d) ∧ ds.flatMap Derivation.tokens = stream := by
  fun_induction declarations endLine stream with
  | case1 => exact ⟨[], by simp, rfl⟩
  | case2 token tokens step others ih =>
    obtain ⟨hstep, hothers⟩ := List.append_eq_nil_iff.mp h
    cases hs : step.1 with
    | none => exact absurd hstep (turn_errors hs)
    | some s =>
      obtain ⟨d, hd, ht, -, -⟩ := derivation_of_turn hs
      obtain ⟨ds, hds, hts⟩ := ih hothers
      exact ⟨d :: ds, List.forall_mem_cons.mpr ⟨hd, hds⟩, by rw [List.flatMap_cons, hts, ht]⟩

/-- Every statement that is read comes from a declaration in the stream, whatever else is reported. -/
theorem derivations_of_statements (endLine : Nat) (stream : List Token) :
    ∃ ds : List (Derivation .declaration), (∀ d ∈ ds, Within 100 d) ∧ (∀ d ∈ ds, d.tokens ⊆ stream) ∧
      ds.map Derivation.tree = (declarations endLine stream).statements := by
  fun_induction declarations endLine stream with
  | case1 => exact ⟨[], by simp, by simp, rfl⟩
  | case2 token tokens step others ih =>
    obtain ⟨ds, within, inside, trees⟩ := ih
    have left : step.2.2 ⊆ token :: tokens := (turn_suffix endLine token tokens).subset
    have behind : ∀ d ∈ ds, d.tokens ⊆ token :: tokens := fun d hd => List.Subset.trans (inside d hd) left
    cases hs : step.1 with
    | none => exact ⟨ds, within, behind, trees⟩
    | some s =>
      obtain ⟨d, hd, ht, tree, -⟩ := derivation_of_turn hs
      refine ⟨d :: ds, List.forall_mem_cons.mpr ⟨hd, within⟩, List.forall_mem_cons.mpr ⟨?_, behind⟩, ?_⟩
      · rw [← ht]
        exact List.subset_append_left ..
      · rw [List.map_cons, tree, trees]
        rfl

/-- The parser accepts exactly the grammar: without end markers in the stream, nothing is reported just when the
stream consists of proper declarations whose expressions are at most 100 levels deep. Such declarations are
unique, and the statements are their trees, in order. -/
theorem parse_accepts (tokens : List Token) (h : ∀ token ∈ tokens, token.kind ≠ .eof) :
    ((parse tokens).errors = [] ↔ ∃ ds : List (Derivation .declaration),
      (∀ d ∈ ds, d.Proper ∧ d.depth ≤ 100) ∧ ds.flatMap Derivation.tokens = tokens) ∧
    ∀ ds : List (Derivation .declaration), (∀ d ∈ ds, d.Proper ∧ d.depth ≤ 100) →
      ds.flatMap Derivation.tokens = tokens →
      (parse tokens).statements = ds.map Derivation.tree ∧
        ∀ ds' : List (Derivation .declaration), ds'.flatMap Derivation.tokens = tokens → ds' = ds := by
  rw [parse_eq_declarations h]
  refine ⟨⟨fun he => ?_, ?_⟩, fun ds hds ht => ?_⟩
  · obtain ⟨ds, hds, rfl⟩ := derivations_of_declarations he
    rw [declarations_flatMap hds, List.flatMap_eq_nil_iff] at he
    exact ⟨ds, fun d hd => ⟨d.reports_eq_nil_iff.mp (he d hd), hds d hd⟩, rfl⟩
  · rintro ⟨ds, hds, rfl⟩
    rw [declarations_flatMap fun d hd => (hds d hd).2, List.flatMap_eq_nil_iff]
    exact fun d hd => d.reports_eq_nil_iff.mpr (hds d hd).1
  · subst ht
    exact ⟨by rw [declarations_flatMap fun d hd => (hds d hd).2], fun ds' => Derivation.flatMap_tokens_injective⟩

/-! ### An example: `x = x - 1 - y;` -/

/-- The tokens of `x = x - 1 - y;`, the first on line 1 and the others on line 2. -/
def decrementTokens : List Token :=
  [⟨.identifier, "x", none, 1⟩, ⟨.equal, "=", none, 2⟩, ⟨.identifier, "x", none, 2⟩, ⟨.minus, "-", none, 2⟩,
    ⟨.number, "1", some (.number 1), 2⟩, ⟨.minus, "-", none, 2⟩, ⟨.identifier, "y", none, 2⟩,
    ⟨.semicolon, ";", none, 2⟩]

/-- The operand of `-` that a primary expression is. -/
def factorOf (d : Derivation (.phrase .primary)) : Derivation (.phrase (.layer .factor)) :=
  Derivation.single (l := .factor) (.bare (.call d .noCall))

/-- The derivation of `x = x - 1 - y;`. -/
def decrement : Derivation .declaration :=
  .statement (.assign (Derivation.ofName ⟨⟨.identifier, "x", none, 1⟩, rfl⟩) ⟨⟨.equal, "=", none, 2⟩, rfl⟩
    (.plain (Derivation.single (l := .equality) (Derivation.single (l := .comparison)
      (Derivation.single (l := .membership) (Derivation.single (l := .union) (Derivation.single (l := .intersection)
        (@Derivation.chain .term (factorOf (.reference ⟨⟨.identifier, "x", none, 2⟩, rfl⟩))
          (.operand ⟨.minus, "-", none, 2⟩ .sub rfl (by decide)
            (factorOf (.literal ⟨.number, "1", some (.number 1), 2⟩ (.number 1) rfl rfl))
            (.operand ⟨.minus, "-", none, 2⟩ .sub rfl (by decide)
              (factorOf (.reference ⟨⟨.identifier, "y", none, 2⟩, rfl⟩)) .noOperand))))))))))
    ⟨⟨.semicolon, ";", none, 2⟩, rfl⟩

theorem parse_accepts_decrement :
    (∀ token ∈ decrementTokens, token.kind ≠ .eof) ∧ decrement.Proper ∧ decrement.depth = 2 ∧
      decrement.tokens = decrementTokens ∧ (parse decrementTokens).errors = [] ∧
      (parse decrementTokens).statements =
        [.expression (.assign (.identifier "x" 1)
          (.binary .sub ⟨.minus, "-", none, 2⟩
            (.binary .sub ⟨.minus, "-", none, 2⟩ (.variable (.identifier "x" 2)) (.literal (.number 1)))
            (.variable (.identifier "y" 2))))] := by
  have eofFree : ∀ token ∈ decrementTokens, token.kind ≠ .eof := by decide
  have proper : decrement.Proper := by
    simp [decrement, factorOf, Derivation.single, Derivation.ofName]
  have fits : ∀ d ∈ [decrement], d.Proper ∧ d.depth ≤ 100 := by
    rintro d (_ | ⟨_, ⟨⟩⟩)
    exact ⟨proper, by decide⟩
  obtain ⟨accepts, trees⟩ := parse_accepts decrementTokens eofFree
  exact ⟨eofFree, proper, rfl, rfl, accepts.mpr ⟨[decrement], fits, rfl⟩, (trees [decrement] fits rfl).1⟩

end SetScript.Grammar
