import SetScript.Proofs.Grammar.Openings
import SetScript.Proofs.Grammar.Reports
import SetScript.Proofs.Parser.Overrun
/-!
# The nesting limit is exact

A declaration is read if none of its parts is on a level beyond the limit. Otherwise the parser goes on up to the first
part that is, and stops there (`parse_nesting`): what stands in front of it is read, and each parser passes the error
on.
-/

namespace SetScript.Grammar

open SetScript.Parser

variable {α β : Type} {inner : Nested} {endLine level n : Nat} {rest : List Token} {deep : Opening}

/-- Where a derivation of the symbol goes beyond the limit, the limit stops the parser at the first part that does. The
parser starts on a level. -/
def Stops (s : Symbol) (p : Parser s.Tree) (level : Nat) : Prop :=
  ∀ endLine (d : Derivation s) rest deep, Ends s.continuedBy rest → d.overrun? level rest = some deep →
    p.Overruns endLine (d.tokens ++ rest) deep.stream d.reports

/-- What stops the parsers `Nested` for the next level. -/
structure NestedStops (inner : Nested) (level : Nat) : Prop where
  expression : Stops .expression inner.expression level
  operand : ∀ endLine sign op spells (e : Derivation (.phrase .unary)) rest deep, Ends Phrase.unary.continuedBy rest →
    (Derivation.prefixed sign op spells e).overrun? level rest = some deep →
      inner.operand.Overruns endLine (e.tokens ++ rest) deep.stream e.reports

section Parts

variable {s : Symbol} {first : Derivation s} {others : List Opening} {stream ahead between : List Token}
  {before behind : List SyntaxError}

/-- The first part of two is stopped, or it is read and what comes behind it is stopped. -/
theorem overruns_parts (between : List Token) (a : α) {p : Parser α} {f : α → Parser β} (room : level + n = maxNesting)
    (h : (first.openings level ahead ++ others).find? (·.level = maxNesting + 1) = some deep)
    (stopped : first.overrun? level ahead = some deep → p.Overruns endLine stream deep.stream before)
    (read : Within n first → p.Gives endLine stream a between before)
    (later : others.find? (·.level = maxNesting + 1) = some deep → (f a).Overruns endLine between deep.stream behind) :
    (p >>= f).Overruns endLine stream deep.stream (before ++ behind) := by
  rw [List.find?_append, Option.or_eq_some_iff] at h
  rcases h with h | ⟨within, h⟩
  · exact ((stopped h).bind f).mono (List.prefix_append ..)
  · exact overruns_bind (read ((first.overrun?_eq_none_iff room ahead).mp within)) (later h)

/-- A parser that reads what keeps the limit and is stopped by what does not, and that starts on a level from which
there are `n` more to go. -/
structure Exact (s : Symbol) (p : Parser s.Tree) (level n : Nat) : Prop where
  reads : Reads s p (Within n)
  stops : Stops s p level
  room : level + n = maxNesting

theorem Exact.bind {p : Parser s.Tree} {f : s.Tree → Parser β} (exact : Exact s p level n)
    (h : (first.openings level between ++ others).find? (·.level = maxNesting + 1) = some deep)
    (ends : Ends s.continuedBy between)
    (later : others.find? (·.level = maxNesting + 1) = some deep →
      (f first.tree).Overruns endLine between deep.stream behind) :
    (p >>= f).Overruns endLine (first.tokens ++ between) deep.stream (first.reports ++ behind) :=
  overruns_parts between first.tree exact.room h (exact.stops _ _ _ _ ends)
    (fun within => (exact.reads _ _ _ _ _).mpr ⟨first, within, rfl, ends, rfl, rfl⟩) later

end Parts

/-! ## The layers of infix operators -/

theorem operands_overrun {l : Layer} {operand : Parser Expr} (exact : Exact (.phrase l.operand) operand level n)
    (d : Derivation (.operands l)) (left : Expr) (ends : Ends (Symbol.operands l).continuedBy rest)
    (h : d.overrun? level rest = some deep) :
    (iterate (layerOp l.ops) (operandRound operand) left).Overruns endLine (d.tokens ++ rest) deep.stream
      d.reports := by
  cases d with
  | noOperand => cases h
  | operand sign op spells inLayer right more =>
    have behind := more.ends_operand ends
    rw [Derivation.tokens, List.cons_append, List.cons_append, List.append_assoc]
    refine overruns_iterate (layerOp_of_spells spells inLayer)
      (overruns_parts (more.tokens ++ rest) (.binary op sign left right.tree) exact.room h ?_ ?_ ?_)
    · exact fun h => (exact.stops _ _ _ _ behind h).bind _
    · exact fun within => (gives_operandRound exact.reads).mpr ⟨right, within, ⟨rfl, behind, rfl, rfl⟩, rfl⟩
    · exact operands_overrun exact more _ ends

theorem exact_leftAssoc {l : Layer} {operand : Parser Expr} (exact : Exact (.phrase l.operand) operand level n) :
    Exact (.phrase (.layer l)) (leftAssoc l.ops operand) level n := by
  refine ⟨reads_leftAssoc exact.reads, ?_, exact.room⟩
  intro endLine d rest deep ends h
  cases d with
  | chain first more =>
    rw [Derivation.tokens, List.append_assoc]
    exact exact.bind h (more.ends_operand ends) (operands_overrun exact more _ ends)

/-- A layer of operators that the layer below has taken already stops where that one does. -/
theorem exact_redundant {l : Layer} {ops : List BinaryOp} (hops : ops ⊆ l.ops) {p : Parser Expr}
    (exact : Exact (.phrase (.layer l)) p level n) : Exact (.phrase (.layer l)) (leftAssoc ops p) level n :=
  ⟨reads_redundant hops exact.reads, fun _ _ _ _ ends h => (exact.stops _ _ _ _ ends h).bind _, exact.room⟩

/-! ## Lists -/

section Lists

variable {i : Item} {item : Parser i.Tree} (exact : Exact (.item i) item level n)
include exact

theorem limitedItem_overruns {before : Nat} {items : List i.Tree} (counted : before = items.length)
    (next : Derivation (.item i)) (ends : Ends i.continuedBy rest) (h : next.overrun? level rest = some deep) :
    (limitedItem item items).Overruns endLine (next.tokens ++ rest) deep.stream
      (overflow before next ++ next.reports) := by
  have appended : (do return items ++ [← item] : Parser (List i.Tree)).Overruns endLine (next.tokens ++ rest)
      deep.stream next.reports := (exact.stops _ _ _ _ ends h).bind _
  subst counted
  unfold limitedItem overflow
  by_cases hl : items.length = 255
  · rw [if_pos (show items.length = maxArguments from hl), if_pos hl, ← currentLine_tokens next rfl endLine rest]
    exact overruns_bind (a := ()) (gives_reportHere.mpr ⟨rfl, rfl⟩) appended
  · rw [if_neg (show items.length ≠ maxArguments from hl), if_neg hl]
    exact appended

theorem moreItems_overrun {before : Nat} {items : List i.Tree} (counted : before = items.length)
    (d : Derivation (.moreItems i before)) (ends : Ends (Symbol.moreItems i before).continuedBy rest)
    (h : d.overrun? level rest = some deep) :
    (iterate (lineIf .comma) (fun _ => limitedItem item) items).Overruns endLine (d.tokens ++ rest) deep.stream
      d.reports := by
  cases d with
  | lastItem => cases h
  | item comma next more =>
    have behind := more.ends_item ends
    rw [Derivation.tokens, List.cons_append, List.cons_append, List.append_assoc]
    refine overruns_iterate (lineIf_eq_some.mpr ⟨comma.2, rfl⟩)
      (overruns_parts (more.tokens ++ rest) (items ++ [next.tree]) exact.room h ?_ ?_ ?_)
    · exact limitedItem_overruns exact counted next behind
    · refine fun within => (gives_limitedItem exact.reads).mpr ⟨next, within, ⟨rfl, behind, rfl, rfl⟩, rfl, ?_⟩
      rw [← counted]
      rfl
    · exact moreItems_overrun (by simp [counted]) more ends

theorem listUntil_overruns {expected : String} (d : Derivation (.items i)) (closing : TokenOf .rightParen)
    (h : d.overrun? level (closing.1 :: rest) = some deep) :
    (listUntil item .rightParen expected).Overruns endLine (d.tokens ++ closing.1 :: rest) deep.stream d.reports := by
  cases d with
  | noItems => cases h
  | items first more =>
    have ends : Ends (Symbol.moreItems i 1).continuedBy (closing.1 :: rest) :=
      ends_tokenOf closing (by cases i <;> decide) rest
    have behind := more.ends_item ends
    rw [Derivation.tokens, List.append_assoc]
    refine overruns_peek?_bind ?_
    rw [if_neg (by rw [head_item]; exact Bool.false_ne_true)]
    refine Overruns.bind (overruns_parts (more.tokens ++ closing.1 :: rest) [first.tree] exact.room h ?_ ?_ ?_) _
    · exact limitedItem_overruns exact List.length_nil.symm first behind
    · exact fun within => (gives_limitedItem exact.reads).mpr ⟨first, within, ⟨rfl, behind, rfl, rfl⟩, rfl, rfl⟩
    · exact moreItems_overrun exact List.length_singleton.symm more ends

end Lists

/-! ## Sets -/

theorem elements_overrun {item : Parser Expr} (exact : Exact .expression item level n) (elements : List Expr)
    (d : Derivation .elements) (ends : Ends Symbol.elements.continuedBy rest)
    (h : d.overrun? level rest = some deep) :
    (moreItems item elements).Overruns endLine (d.tokens ++ rest) deep.stream d.reports := by
  cases d with
  | lastElement => cases h
  | element comma e more =>
    have behind := more.ends_element ends
    rw [Derivation.tokens, List.cons_append, List.cons_append, List.append_assoc]
    refine overruns_iterate (lineIf_eq_some.mpr ⟨comma.2, rfl⟩)
      (overruns_parts (more.tokens ++ rest) (elements ++ [e.tree]) exact.room h ?_ ?_ ?_)
    · exact fun h => (exact.stops _ _ _ _ behind h).bind _
    · exact fun within => (gives_appended exact.reads).mpr ⟨e, within, ⟨rfl, behind, rfl, rfl⟩, rfl, rfl⟩
    · exact elements_overrun exact _ more ends

section Sets

variable (exact : Exact .expression inner.expression level n) (closing : TokenOf .rightBrace)
include exact

theorem filter_overruns {expected : String} {make : Option Expr → Expr} (filter : Derivation .filter)
    (h : filter.overrun? level (closing.1 :: rest) = some deep) :
    (do
      let filter? ← match ← accept? (lineIf .comma) with
        | some _ => some <$> inner.expression
        | none => pure none
      let _ ← expect .rightBrace expected
      return make filter? : Parser Expr).Overruns endLine (filter.tokens ++ closing.1 :: rest) deep.stream
        filter.reports := by
  cases filter with
  | noFilter => cases h
  | filtered comma filter =>
    have ends : Ends Item.expression.continuedBy (closing.1 :: rest) := ends_tokenOf closing (by decide) rest
    refine overruns_accept?_some_bind (lineIf_eq_some.mpr ⟨comma.2, rfl⟩) ?_
    exact ((exact.stops _ _ _ _ ends h).bind _).bind _

theorem roster_overruns (first : Derivation .expression) (more : Derivation .elements)
    (h : (first.openings level (more.tokens ++ closing.1 :: rest) ++
      more.openings level (closing.1 :: rest)).find? (·.level = maxNesting + 1) = some deep) :
    (setTail inner).Overruns endLine (first.tokens ++ (more.tokens ++ closing.1 :: rest)) deep.stream
      (first.reports ++ more.reports) := by
  have ends : Ends Symbol.elements.continuedBy (closing.1 :: rest) := ends_tokenOf closing (by decide) rest
  refine overruns_accept?_none_bind (head_expression _ _) (exact.bind h (more.ends_element ends) fun later => ?_)
  refine overruns_accept?_none_bind (head_elements more closing rest) ?_
  exact (elements_overrun exact _ more ends later).bind _

theorem comprehension_overruns (result : Derivation .expression) (bar : TokenOf .pipe) (bound : Derivation .name)
    (word : TokenOf .inWord) (domain : Derivation .expression) (filter : Derivation .filter) {tail : List Token}
    (ht : tail = bound.tokens ++ word.1 :: (domain.tokens ++ (filter.tokens ++ closing.1 :: rest)))
    (h : (result.openings level (bar.1 :: tail) ++ (domain.openings level (filter.tokens ++ closing.1 :: rest) ++
      filter.openings level (closing.1 :: rest))).find? (·.level = maxNesting + 1) = some deep) :
    (setTail inner).Overruns endLine (result.tokens ++ bar.1 :: tail) deep.stream
      (result.reports ++ (domain.reports ++ filter.reports)) := by
  have ends : Ends Item.expression.continuedBy (bar.1 :: tail) := ends_tokenOf bar (by decide) tail
  refine overruns_accept?_none_bind (head_expression _ _) (exact.bind h ends fun later => ?_)
  refine overruns_accept?_some_bind (lineIf_eq_some.mpr ⟨bar.2, rfl⟩) ?_
  subst ht
  cases bound with
  | named bound =>
    refine overruns_expect_bind bound.2 (overruns_expect_bind word.2 ?_)
    exact exact.bind later (filter.ends_filter (ends_tokenOf closing (by decide) rest))
      (filter_overruns exact closing filter)

end Sets

/-! ## From primary expressions to assignments -/

/-- Parsers `Nested` that read what keeps the limit and are stopped by what does not. -/
structure NestedExact (inner : Nested) (level n : Nat) : Prop where
  reads : NestedReads inner n
  stops : NestedStops inner level
  room : level + n = maxNesting

section Nested

variable (exact : NestedExact inner level n)
include exact

theorem NestedExact.expression : Exact .expression inner.expression level n :=
  ⟨exact.reads.expression, exact.stops.expression, exact.room⟩

theorem exact_primary : Exact (.phrase .primary) (primary inner) level n := by
  refine ⟨reads_primary exact.reads, ?_, exact.room⟩
  intro endLine d rest deep _ h
  cases d with
  | literal | reference | emptyRoster => cases h
  | group opening e closing | cardinality opening e closing =>
    rw [Derivation.tokens, List.cons_append, List.cons_append, List.append_assoc]
    refine overruns_peek?_bind ?_
    simp only [List.head?_cons, opening.2]
    exact overruns_skip_bind ((exact.stops.expression _ e _ _ (ends_tokenOf closing (by decide) rest) h).bind _)
  | roster opening first more closing =>
    simp only [Derivation.tokens, List.cons_append, List.append_assoc, List.nil_append]
    refine overruns_peek?_bind ?_
    simp only [List.head?_cons, opening.2]
    exact overruns_skip_bind (roster_overruns exact.expression closing first more h)
  | comprehension opening result bar bound word domain filter closing =>
    simp only [Derivation.tokens, List.cons_append, List.append_assoc, List.nil_append, Derivation.reports]
    refine overruns_peek?_bind ?_
    simp only [List.head?_cons, opening.2]
    exact overruns_skip_bind (comprehension_overruns exact.expression closing result bar bound word domain filter rfl h)

theorem calls_overrun (callee : Expr) (d : Derivation .calls) (h : d.overrun? level rest = some deep) :
    (iterate (lineIf .leftParen) (fun _ => argumentRound inner) callee).Overruns endLine (d.tokens ++ rest) deep.stream
      d.reports := by
  cases d with
  | noCall => cases h
  | apply opening arguments closing more =>
    rw [Derivation.tokens, List.cons_append, List.cons_append, List.append_assoc]
    refine overruns_iterate (lineIf_eq_some.mpr ⟨opening.2, rfl⟩)
      (overruns_parts (more.tokens ++ rest) (.call closing.1 callee arguments.tree) exact.room h ?_ ?_ ?_)
    · exact fun h => (listUntil_overruns exact.expression arguments closing h).bind _
    · exact fun within => (gives_argumentRound exact.reads).mpr ⟨arguments, closing, within, rfl, rfl, rfl⟩
    · exact calls_overrun _ more

theorem exact_call : Exact (.phrase .call) (call inner) level n := by
  refine ⟨reads_call exact.reads, ?_, exact.room⟩
  intro endLine d rest deep ends h
  cases d with
  | call callee more =>
    rw [Derivation.tokens, List.append_assoc]
    exact (exact_primary exact).bind h (ends_none _) (calls_overrun exact _ more)

theorem exact_unary : Exact (.phrase .unary) (unary inner) level n := by
  refine ⟨reads_unary exact.reads, ?_, exact.room⟩
  intro endLine d rest deep ends h
  cases d with
  | prefixed sign op spells e =>
    refine overruns_accept?_some_bind (a := (op, sign)) (by rw [spells]; rfl) ?_
    exact (exact.stops.operand _ _ _ spells e _ _ ends h).bind _
  | bare e =>
    refine overruns_accept?_none_bind ?_ ((exact_call exact).stops _ e _ _ ends h)
    obtain ⟨token, more, ht, hk⟩ := e.exists_head rfl
    rw [Derivation.tokens, ht, List.cons_append, List.head?_cons, Option.bind_some, Option.map_eq_none_iff]
    exact Option.eq_none_iff_forall_ne_some.mpr fun op spells => UnaryOp.not_mem_firsts spells hk

theorem exact_equality : Exact (.phrase (.layer .equality)) (equality inner) level n := by
  have hfactor : Exact (.phrase (.layer .factor)) (factor inner) level n :=
    exact_leftAssoc (l := .factor) (exact_unary exact)
  have hterm : Exact (.phrase (.layer .term)) (difference inner) level n :=
    exact_redundant (l := .term) (by decide) (exact_leftAssoc (l := .term) hfactor)
  have hintersection : Exact (.phrase (.layer .intersection)) (intersection inner) level n :=
    exact_leftAssoc (l := .intersection) hterm
  have hunion : Exact (.phrase (.layer .union)) (union inner) level n := exact_leftAssoc (l := .union) hintersection
  have hmembership : Exact (.phrase (.layer .membership)) (membership inner) level n :=
    exact_leftAssoc (l := .membership) hunion
  have hcomparison : Exact (.phrase (.layer .comparison)) (comparison inner) level n :=
    exact_leftAssoc (l := .comparison) hmembership
  exact exact_leftAssoc (l := .equality) hcomparison

end Nested

/-- An expression opens a level of its own. With no level to go, it is the first part beyond the limit; otherwise the
first one is inside. -/
theorem find?_opened {level n : Nat} {stream : List Token} {inside : List Opening} (room : level + n + 1 = maxNesting)
    (h : ((⟨level + 1, stream⟩ : Opening) :: inside).find? (·.level = maxNesting + 1) = some deep) :
    inside.find? (·.level = maxNesting + 1) = some deep := by
  rwa [List.find?_cons_of_neg] at h
  simp only [decide_eq_true_eq]
  omega

theorem assignment_stops (exact : NestedExact inner (level + 1) n) : Stops .expression (assignment inner) level := by
  have room : level + n + 1 = maxNesting := by have := exact.room; omega
  intro endLine d rest deep ends h
  cases d with
  | assign target sign value =>
    rw [Derivation.tokens, List.append_assoc, List.cons_append, Derivation.reports, List.append_assoc]
    refine (exact_equality exact).bind (find?_opened room h) (Derivation.ends_sign sign _) fun later => ?_
    refine overruns_accept?_some_bind (lineIf_eq_some.mpr ⟨sign.2, rfl⟩) ?_
    exact ((exact.stops.expression _ value _ _ ends later).bind _).mono (List.prefix_append ..)
  | plain e => exact ((exact_equality exact).stops _ e _ _ (Derivation.ends_target ends) (find?_opened room h)).bind _

theorem nested_exact {level n : Nat} (room : level + n = maxNesting) : NestedExact (nested n) level n := by
  refine ⟨nested_reads n, ?_, room⟩
  induction n generalizing level with
  | zero =>
    obtain rfl : level = maxNesting := room
    constructor
    · intro endLine d rest deep _ h
      cases d with
      | assign target sign value =>
        cases h
        simp only [Derivation.tokens, List.append_assoc, List.cons_append]
        exact overruns_fail
      | plain e =>
        cases h
        exact overruns_fail
    · intro endLine sign op spells e rest deep _ h
      cases h
      exact overruns_fail
  | succ n ih =>
    have deeper : level + 1 + n = maxNesting := by omega
    have exact : NestedExact (nested n) (level + 1) n := ⟨nested_reads n, ih deeper, deeper⟩
    constructor
    · exact assignment_stops exact
    · intro endLine sign op spells e rest deep ends h
      exact (exact_unary exact).stops _ e _ _ ends (find?_opened (by omega) h)

/-! ## Declarations -/

theorem declaration_stops : Stops .declaration declaration 0 := by
  have exact : Exact .expression expression 0 100 := (nested_exact rfl).expression
  intro endLine d rest deep _ h
  have reads : ∀ expected, Reads .name (name expected) (Within 0) := reads_name
  have named : ∀ expected (x : Derivation .name) behind,
      (name expected).Gives endLine (x.tokens ++ behind) x.tree behind [] := by
    intro expected x behind
    cases x with
    | named token => exact (reads _ _ _ _ _ _).mpr ⟨.named token, Nat.zero_le 0, rfl, ends_none _, rfl, rfl⟩
  have value : ∀ {γ : Type} (f : Expr → Parser γ) (e : Derivation .expression) (semicolon : TokenOf .semicolon),
      e.overrun? 0 (semicolon.1 :: rest) = some deep →
        (expression >>= f).Overruns endLine (e.tokens ++ semicolon.1 :: rest) deep.stream e.reports :=
    fun f e semicolon h => (exact.stops _ e _ _ (ends_tokenOf semicolon (by decide) rest) h).bind f
  cases d with
  | function word x opening parameters closing sign body semicolon =>
    simp only [Derivation.tokens, List.cons_append, List.append_assoc, List.nil_append]
    have list : (listUntil (name "Expect parameter name") .rightParen "Expect ')' after parameters").Gives endLine
        (parameters.tokens ++ closing.1 :: sign.1 :: (body.tokens ++ semicolon.1 :: rest))
        (parameters.tree, closing.1) (sign.1 :: (body.tokens ++ semicolon.1 :: rest)) parameters.reports :=
      (gives_listUntil (n := parameters.depth) (reads_name _)).mpr
        ⟨closing.2, parameters, Nat.le_refl _, rfl, ends_tokenOf closing (by decide) _, rfl, rfl⟩
    refine overruns_accept?_some_bind (a := functionTail) (by rw [word.2]; rfl) (Overruns.bind ?_ _)
    refine overruns_quiet_bind (named _ x _) (overruns_expect_bind opening.2 (overruns_bind list ?_))
    exact overruns_expect_bind sign.2 (value _ body semicolon h)
  | binding word x sign e semicolon =>
    simp only [Derivation.tokens, List.cons_append, List.append_assoc, List.nil_append]
    refine overruns_accept?_some_bind (a := letTail) (by rw [word.2]; rfl) (Overruns.bind ?_ _)
    exact overruns_quiet_bind (named _ x _) (overruns_expect_bind sign.2 (value _ e semicolon h))
  | printing word e semicolon =>
    simp only [Derivation.tokens, List.cons_append, List.append_assoc, List.nil_append]
    refine overruns_accept?_some_bind (a := printTail) (by rw [word.2]; rfl) (Overruns.bind ?_ _)
    exact value _ e semicolon h
  | statement e semicolon =>
    simp only [Derivation.tokens, List.append_assoc, List.cons_append, List.nil_append]
    exact overruns_accept?_none_bind (head_value e _) ((value _ e semicolon h).bind _)

/-! ## Where a declaration ends -/

/-- A token of this kind can stand between the first token of a declaration and its `;`. -/
def isInner (kind : Kind) : Bool := !kind.isBoundary && kind != .eof

theorem isInner_of {kind : Kind} (token : TokenOf kind) (h : isInner kind) : isInner token.1.kind :=
  token.2.symm ▸ h

namespace Derivation

variable {s : Symbol}

theorem isInner_tokens (d : Derivation s) (part : s ≠ .declaration) : ∀ token ∈ d.tokens, isInner token.kind := by
  have operator : ∀ {kind op}, BinaryOp.ofKind? kind = some op → isInner kind := by
    intro kind op spells
    cases kind <;> first | rfl | cases spells
  have sign : ∀ {kind op}, UnaryOp.ofKind? kind = some op → isInner kind := by
    intro kind op spells
    cases kind <;> first | rfl | cases spells
  have value : ∀ {kind}, Grammar.isLiteral kind = true → isInner kind := by
    intro kind h
    cases kind <;> first | rfl | cases h
  induction d <;> simp only [tokens, List.forall_mem_append, List.forall_mem_cons, List.not_mem_nil, IsEmpty.forall_iff,
    implies_true, and_true]
  case function | binding | printing | statement => exact absurd rfl part
  case named token | reference token => exact isInner_of token rfl
  case literal isLiteral _ => exact value isLiteral
  case plain ih | bare ih => exact ih nofun
  case chain ihf ihr | call ihf ihr | items ihf ihr => exact ⟨ihf nofun, ihr nofun⟩
  case assign mark _ iht ihv => exact ⟨iht nofun, isInner_of mark rfl, ihv nofun⟩
  case operand spells _ _ _ ihf ihr => exact ⟨⟨operator spells, ihf nofun⟩, ihr nofun⟩
  case prefixed spells _ ih => exact ⟨sign spells, ih nofun⟩
  case item comma _ _ ihf ihr | element comma _ _ ihf ihr =>
    exact ⟨⟨isInner_of comma rfl, ihf nofun⟩, ihr nofun⟩
  case filtered comma _ ih => exact ⟨isInner_of comma rfl, ih nofun⟩
  case emptyRoster opening closing => exact ⟨isInner_of opening rfl, isInner_of closing rfl⟩
  case group opening _ closing ih | cardinality opening _ closing ih =>
    exact ⟨⟨isInner_of opening rfl, ih nofun⟩, isInner_of closing rfl⟩
  case apply opening _ closing _ iha ihr =>
    exact ⟨⟨isInner_of opening rfl, iha nofun⟩, isInner_of closing rfl, ihr nofun⟩
  case roster opening _ _ closing ihf ihr =>
    exact ⟨⟨⟨isInner_of opening rfl, ihf nofun⟩, ihr nofun⟩, isInner_of closing rfl⟩
  case comprehension opening _ bar _ word _ _ closing ihr ihb ihd ihf =>
    exact ⟨⟨⟨⟨⟨isInner_of opening rfl, ihr nofun⟩, isInner_of bar rfl, ihb nofun⟩, isInner_of word rfl, ihd nofun⟩,
      ihf nofun⟩, isInner_of closing rfl⟩

/-- A declaration is one piece: its `;` is the only boundary behind its first token. -/
theorem exists_one_piece (d : Derivation .declaration) :
    ∃ (first : Token) (between : List Token) (semicolon : TokenOf .semicolon),
      d.tokens = first :: between ++ [semicolon.1] ∧ first.kind ≠ .semicolon ∧ first.kind ≠ .eof ∧
        ∀ token ∈ between, isInner token.kind := by
  cases d with
  | function word name opening parameters closing sign body semicolon =>
    refine ⟨word.1, name.tokens ++ opening.1 :: parameters.tokens ++ closing.1 :: sign.1 :: body.tokens, semicolon,
      by simp, by simp, by simp, ?_⟩
    simp only [List.forall_mem_append, List.forall_mem_cons]
    exact ⟨⟨name.isInner_tokens nofun, isInner_of opening rfl, parameters.isInner_tokens nofun⟩,
      isInner_of closing rfl, isInner_of sign rfl, body.isInner_tokens nofun⟩
  | binding word name sign value semicolon =>
    refine ⟨word.1, name.tokens ++ sign.1 :: value.tokens, semicolon, by simp, by simp, by simp, ?_⟩
    simp only [List.forall_mem_append, List.forall_mem_cons]
    exact ⟨name.isInner_tokens nofun, isInner_of sign rfl, value.isInner_tokens nofun⟩
  | printing word value semicolon =>
    exact ⟨word.1, value.tokens, semicolon, rfl, by simp, by simp, value.isInner_tokens nofun⟩
  | statement value semicolon =>
    obtain ⟨token, more, hv, -⟩ := value.exists_head rfl
    obtain ⟨first, between⟩ := List.forall_mem_cons.mp (hv ▸ value.isInner_tokens nofun)
    refine ⟨token, more, semicolon, by rw [tokens, hv], ?_, ?_, between⟩
    all_goals
      rintro h
      exact absurd first (by rw [h]; decide)

theorem kind_ne_eof (d : Derivation .declaration) : ∀ token ∈ d.tokens, token.kind ≠ .eof := by
  obtain ⟨first, between, semicolon, ht, -, hfirst, hbetween⟩ := d.exists_one_piece
  have inner : ∀ token ∈ between, token.kind ≠ .eof := by
    rintro token hm hk
    exact absurd (hbetween token hm) (by rw [hk]; decide)
  rw [ht, List.forall_mem_append, List.forall_mem_cons, List.forall_mem_singleton]
  exact ⟨⟨hfirst, inner⟩, by rw [semicolon.2]; decide⟩

/-- However reading a declaration ends, it goes on behind the `;`. -/
theorem rest_turn_tokens (d : Derivation .declaration) (endLine : Nat) : (turn endLine d.tokens).2.2 = [] := by
  obtain ⟨first, between, semicolon, ht, hfirst, -, hbetween⟩ := d.exists_one_piece
  have inner : ∀ token ∈ between, !token.kind.isBoundary := fun token hm =>
    (Bool.and_eq_true _ _ ▸ hbetween token hm).1
  have closing : semicolon.1.kind.isBoundary = true := by rw [semicolon.2]; decide
  rw [ht, List.cons_append, rest_turn, (front_cons hfirst _).2, List.dropWhile_append_of_pos inner,
    List.dropWhile_cons_of_neg (by rw [closing]; decide), resume_semicolon semicolon.2]

theorem parse_tokens (d : Derivation .declaration) :
    parse d.tokens = ⟨(turn (SetScript.endLine d.tokens) d.tokens).1.toList,
      (turn (SetScript.endLine d.tokens) d.tokens).2.1⟩ := by
  obtain ⟨first, more, ht, -⟩ := d.exists_head rfl
  rw [parse_eq_declarations d.kind_ne_eof, declarations_of_turn (by simp [ht]) (d.rest_turn_tokens _)]

end Derivation

theorem turn_of_overrun {d : Derivation .declaration} (h : d.overrun? 0 rest = some deep) (endLine : Nat) :
    ∃ made, made <+: d.reports ∧ (turn endLine (d.tokens ++ rest)).1 = none ∧
      (turn endLine (d.tokens ++ rest)).2.1 = made ++ [⟨.nestingTooDeep 100, currentLine endLine deep.stream⟩] := by
  obtain ⟨made, first, hr⟩ := declaration_stops endLine d rest deep (ends_none _) h
  refine ⟨made, first, ?_⟩
  rw [turn, hr]
  exact ⟨rfl, rfl⟩

theorem Derivation.reports_not_fatal (d : Derivation .declaration) : ∀ e ∈ d.reports, e.cause.isFatal = false := by
  intro e he
  rcases cause_of_mem_mistakes (d.reports_perm_mistakes.mem_iff.mp he) with h | h <;> rw [h] <;> rfl

/-- The nesting limit is exact. A declaration with no part beyond level 100 is read, and nothing is said about its
nesting. Otherwise it gives no statement and one fatal error, on the line of the first token of the first part on level
101. Only reports that the declaration would get without a limit stand before this error. Whatever comes
behind is read as if it stood alone. -/
theorem parse_nesting (d : Derivation .declaration) :
    ((∀ opening ∈ d.openings 0 [], opening.level ≤ 100) →
      (parse d.tokens).statements = [d.tree] ∧ ∀ e ∈ (parse d.tokens).errors, e.cause ≠ .nestingTooDeep 100) ∧
    ((∃ opening ∈ d.openings 0 [], 100 < opening.level) →
      (parse d.tokens).statements = [] ∧
        ∃ deep ∈ d.openings 0 [], deep.level = 101 ∧
          (∀ other ∈ d.openings 0 [], other.level = 101 → other.stream <:+ deep.stream) ∧
          ∃ first ∈ deep.stream.head?, ∃ before, before <+: d.reports ∧
            (∀ e ∈ before, e.cause.isFatal = false) ∧
            (parse d.tokens).errors = before ++ [⟨.nestingTooDeep 100, first.line⟩]) ∧
    ∀ more, (parse (d.tokens ++ more)).statements = (parse d.tokens).statements ++ (parse more).statements ∧
      (parse (d.tokens ++ more)).errors = (parse d.tokens).errors ++ (parse more).errors := by
  refine ⟨fun within => ?_, fun beyond => ?_, fun more => ?_⟩
  · have fits : Within 100 d := (d.forall_level_le_iff 0 100 []).mp (by simpa using within)
    have read := turn_of_derivation fits (SetScript.endLine d.tokens) []
    rw [List.append_nil] at read
    rw [d.parse_tokens, read]
    refine ⟨rfl, fun e he hc => ?_⟩
    have quiet := d.reports_not_fatal e he
    rw [hc] at quiet
    cases quiet
  · have found : d.overrun? 0 [] ≠ none := by
      rw [Ne, d.overrun?_eq_none_iff (n := 100) rfl, ← d.forall_level_le_iff 0 100 []]
      obtain ⟨opening, ho, hl⟩ := beyond
      exact fun all => Nat.not_le_of_lt hl (by simpa using all opening ho)
    obtain ⟨deep, hdeep⟩ := Option.ne_none_iff_exists'.mp found
    obtain ⟨member, level, first⟩ := Derivation.overrun?_first hdeep
    obtain ⟨token, behind, hs⟩ := List.exists_cons_of_ne_nil (Derivation.stream_ne_nil member)
    obtain ⟨before, made, statement, errors⟩ := turn_of_overrun hdeep (SetScript.endLine d.tokens)
    rw [List.append_nil] at statement errors
    rw [d.parse_tokens, statement, errors, hs]
    exact ⟨rfl, deep, member, level, first, token, by rw [hs]; rfl, before, made,
      fun e he => d.reports_not_fatal e (made.subset he), rfl⟩
  · rw [parse_closed_append d.kind_ne_eof (d.closed_append [])]
    exact ⟨rfl, rfl⟩

/-! ### An example: `!!…!true;` with a line for each token -/

/-- `true` behind `n` times `!`, from a line on. -/
def negated : (line n : Nat) → Derivation (.phrase .unary)
  | line, 0 => .bare (.call (.literal ⟨.trueWord, "true", some (.bool true), line⟩ (.bool true) rfl rfl) .noCall)
  | line, n + 1 => .prefixed ⟨.bang, "!", none, line⟩ .not rfl (negated (line + 1) n)

def negation (n : Nat) : Derivation .declaration :=
  .statement (.plain (.single (l := .equality) (.single (l := .comparison) (.single (l := .membership)
    (.single (l := .union) (.single (l := .intersection) (.single (l := .term) (.single (l := .factor)
      (negated 1 n))))))))) ⟨⟨.semicolon, ";", none, n + 2⟩, rfl⟩

/-- The expression is on level 1 and behind each `!` is one more: 99 of them keep the limit, and of 120 the operand
of number 100, on line 101, is the first part beyond it. -/
theorem parse_nesting_negation :
    (parse (negation 99).tokens).statements = [(negation 99).tree] ∧
      (parse (negation 120).tokens).statements = [] ∧
      (parse (negation 120).tokens).errors = [⟨.nestingTooDeep 100, 101⟩] := by
  have within : ∀ opening ∈ (negation 99).openings 0 [], opening.level ≤ 100 := by decide +kernel
  have beyond : ∃ opening ∈ (negation 120).openings 0 [], 100 < opening.level := by decide +kernel
  have here : ∀ opening ∈ (negation 120).openings 0 [], opening.level = 101 →
      ∀ first ∈ opening.stream.head?, first.line = 101 := by decide +kernel
  obtain ⟨statements, deep, member, level, -, first, hf, before, made, -, errors⟩ :=
    (parse_nesting (negation 120)).2.1 beyond
  have nothing : before = [] := List.prefix_nil.mp made
  refine ⟨((parse_nesting (negation 99)).1 within).1, statements, ?_⟩
  rw [errors, nothing, here deep member level first hf]
  rfl

end SetScript.Grammar
