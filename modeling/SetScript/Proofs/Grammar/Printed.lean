import SetScript.Proofs.Grammar.Proper
import SetScript.Proofs.Lines
import SetScript.Proofs.Scan.Legible
/-!
# Derivations as they are written

What a derivation is read as does not show the right side of an assignment without a variable on its left, nor how a
number was written. `Derivation.printed` is a derivation without these, and with all its tokens on one line: it is
read as the same tree (`moved_printed`), no deeper than the one it comes from (`depth_printed_le`), and nothing is
reported about it but over-long lists (`cause_of_mem_reports_printed`).
-/

namespace SetScript

/-- Whatever is no number is written as the token that was read, on line 1. -/
theorem Token.Legible.printed_eq_mapLine {token : Token} (h : token.Legible) (hn : token.kind ≠ .number) :
    token.printed = token.mapLine fun _ => 1 := by
  calc token.printed
    _ = { token with lexeme := token.printed.lexeme, line := 1 } := rfl
    _ = token.mapLine fun _ => 1 := by rw [h.printed_lexeme hn]; rfl

/-! ## Over-long lists -/

mutual

/-- How many argument lists of an expression have more than 255 items. -/
def Expr.overlong : Expr → Nat
  | .literal _ | .variable _ => 0
  | .group inner => inner.overlong
  | .unary _ _ operand => operand.overlong
  | .binary _ _ left right => left.overlong + right.overlong
  | .roster elements => Expr.overlongs elements
  | .comprehension result _ domain filter? => result.overlong + domain.overlong + Expr.overlong? filter?
  | .cardinality _ operand => operand.overlong
  | .call _ callee arguments =>
    callee.overlong + Expr.overlongs arguments + if 255 < arguments.length then 1 else 0
  | .assign _ value => value.overlong

def Expr.overlongs : List Expr → Nat
  | [] => 0
  | e :: es => e.overlong + Expr.overlongs es

def Expr.overlong? : Option Expr → Nat
  | none => 0
  | some e => e.overlong

end

theorem Expr.overlongs_eq_sum (es : List Expr) : Expr.overlongs es = (es.map overlong).sum := by
  induction es with
  | nil => rfl
  | cons e es ih => rw [overlongs, ih, List.map_cons, List.sum_cons]

/-- How many argument and parameter lists of a statement have more than 255 items. -/
def Statement.overlong : Statement → Nat
  | .print value | .let _ value | .expression value => value.overlong
  | .function _ parameters body => (if 255 < parameters.length then 1 else 0) + body.overlong

namespace Grammar

/-! ## Derivations -/

def TokenOf.printed {kind : Kind} (token : TokenOf kind) : TokenOf kind := ⟨token.1.printed, token.2⟩

@[simp] theorem TokenOf.val_printed {kind : Kind} (token : TokenOf kind) :
    (TokenOf.printed token).1 = token.1.printed := rfl

theorem TokenOf.printed_eq_mapLine {kind : Kind} (token : TokenOf kind) (hn : kind ≠ .number) (h : token.1.Legible) :
    token.1.printed = token.1.mapLine fun _ => 1 := h.printed_eq_mapLine (by rwa [token.2])

namespace Derivation

/-- The derivation with its tokens as they are written, and without assignments that have no variable to go to. -/
@[simp] def printed {s : Symbol} : Derivation s → Derivation s
  | function word name opening parameters closing sign body semicolon =>
    function (TokenOf.printed word) name.printed (TokenOf.printed opening) parameters.printed (TokenOf.printed closing)
      (TokenOf.printed sign) body.printed (TokenOf.printed semicolon)
  | binding word name sign value semicolon =>
    binding (TokenOf.printed word) name.printed (TokenOf.printed sign) value.printed (TokenOf.printed semicolon)
  | printing word value semicolon => printing (TokenOf.printed word) value.printed (TokenOf.printed semicolon)
  | statement value semicolon => statement value.printed (TokenOf.printed semicolon)
  | named token => named (TokenOf.printed token)
  | assign target sign value =>
    match target.tree with
    | .variable _ => assign target.printed (TokenOf.printed sign) value.printed
    | _ => plain target.printed
  | plain e => plain e.printed
  | chain first rest => chain first.printed rest.printed
  | noOperand => noOperand
  | operand sign op spells inLayer right rest => operand sign.printed op spells inLayer right.printed rest.printed
  | prefixed sign op spells e => prefixed sign.printed op spells e.printed
  | bare e => bare e.printed
  | call callee rest => call callee.printed rest.printed
  | noCall => noCall
  | apply opening arguments closing rest =>
    apply (TokenOf.printed opening) arguments.printed (TokenOf.printed closing) rest.printed
  | noItems => noItems
  | items first rest => items first.printed rest.printed
  | lastItem => lastItem
  | item comma next rest => item (TokenOf.printed comma) next.printed rest.printed
  | literal token value isLiteral stands => literal token.printed value isLiteral stands
  | reference name => reference (TokenOf.printed name)
  | group opening e closing => group (TokenOf.printed opening) e.printed (TokenOf.printed closing)
  | cardinality opening e closing => cardinality (TokenOf.printed opening) e.printed (TokenOf.printed closing)
  | emptyRoster opening closing => emptyRoster (TokenOf.printed opening) (TokenOf.printed closing)
  | roster opening first rest closing =>
    roster (TokenOf.printed opening) first.printed rest.printed (TokenOf.printed closing)
  | comprehension opening result bar bound word domain filter closing =>
    comprehension (TokenOf.printed opening) result.printed (TokenOf.printed bar) bound.printed (TokenOf.printed word)
      domain.printed filter.printed (TokenOf.printed closing)
  | lastElement => lastElement
  | element comma e rest => element (TokenOf.printed comma) e.printed rest.printed
  | noFilter => noFilter
  | filtered comma e => filtered (TokenOf.printed comma) e.printed

variable {s : Symbol}

theorem depth_printed_le (d : Derivation s) : d.printed.depth ≤ d.depth := by
  induction d with
  | assign target sign value iht ihv =>
    rw [printed]
    split
    · simp only [depth]
      omega
    · simp only [depth]
      omega
  | _ => simp only [printed, depth] at *; omega

theorem tokens_printed_sublist (d : Derivation s) : d.printed.tokens.Sublist (d.tokens.map Token.printed) := by
  induction d with
  | assign target sign value iht ihv =>
    rw [printed]
    split
    · simp only [tokens, List.map_append, List.map_cons]
      exact iht.append (ihv.cons_cons _)
    · simp only [tokens, List.map_append, List.map_cons]
      exact iht.trans (List.sublist_append_left _ _)
  | _ =>
    simp only [printed, tokens, List.map_append, List.map_cons, List.map_nil]
    repeat' first | assumption | apply List.Sublist.append | apply List.Sublist.cons_cons | exact .refl _

/-! ## Trees -/

end Derivation

/-- An item with its lines moved. -/
def Item.mapLine (f : Nat → Nat) : (item : Item) → item.Tree → item.Tree
  | .name, tree => tree.mapLine f
  | .expression, tree => tree.mapLine f

/-- The second tree is the first with its lines moved. What can follow an expression makes moved trees of moved
expressions. -/
def Symbol.Moved (f : Nat → Nat) : (s : Symbol) → s.Tree → s.Tree → Prop
  | .declaration, tree, moved => moved = tree.mapLine f
  | .item i, tree, moved => moved = i.mapLine f tree
  | .phrase _, tree, moved => moved = tree.mapLine f
  | .operands _, grow, moved | .calls, grow, moved => ∀ e, moved (e.mapLine f) = (grow e).mapLine f
  | .items i, trees, moved | .moreItems i _, trees, moved => moved = trees.map (i.mapLine f)
  | .elements, trees, moved => moved = trees.map (Expr.mapLine f)
  | .filter, tree?, moved => moved = tree?.map (Expr.mapLine f)

namespace Derivation

/-- What is written is read as the same tree, on line 1. -/
theorem moved_printed (d : Derivation s) (h : ∀ token ∈ d.tokens, token.Legible) :
    s.Moved (fun _ => 1) d.tree d.printed.tree := by
  induction d with
  | named name => exact TokenOf.printed_eq_mapLine name (by decide) (h name.1 (List.mem_singleton_self _))
  | reference name =>
    exact congrArg Expr.variable (TokenOf.printed_eq_mapLine name (by decide) (h name.1 (List.mem_singleton_self _)))
  | assign target sign value iht ihv =>
    simp only [tokens, List.forall_mem_append, List.forall_mem_cons] at h
    have left : target.printed.tree = target.tree.mapLine fun _ => 1 := iht h.1
    have right : value.printed.tree = value.tree.mapLine fun _ => 1 := ihv h.2.2
    simp only [Symbol.Moved, Item.mapLine, printed, tree]
    cases ht : target.tree <;> simp [left, right, ht, Expr.mapLine]
  | chain first rest ihf ihr | call first rest ihf ihr =>
    simp only [tokens, List.forall_mem_append] at h
    have left : first.printed.tree = first.tree.mapLine fun _ => 1 := ihf h.1
    simp only [Symbol.Moved, printed, tree, left]
    exact ihr h.2 first.tree
  | operand sign op spells _ right rest ihe ihr =>
    simp only [tokens, List.cons_append, List.forall_mem_append, List.forall_mem_cons] at h
    have operator : sign.printed = sign.mapLine fun _ => 1 :=
      h.1.printed_eq_mapLine fun hk => by rw [hk] at spells; cases spells
    have operand : right.printed.tree = right.tree.mapLine fun _ => 1 := ihe h.2.1
    intro left
    have step := ihr h.2.2 (.binary op sign left right.tree)
    simp only [printed, tree, operator, operand]
    exact step
  | prefixed sign op spells e ih =>
    simp only [tokens, List.forall_mem_cons] at h
    have operator : sign.printed = sign.mapLine fun _ => 1 :=
      h.1.printed_eq_mapLine fun hk => by rw [hk] at spells; cases spells
    have operand : e.printed.tree = e.tree.mapLine fun _ => 1 := ih h.2
    simp only [Symbol.Moved, printed, tree, operator, operand, Expr.mapLine]
  | cardinality opening e closing ih =>
    simp only [tokens, List.cons_append, List.forall_mem_append, List.forall_mem_cons] at h
    have operand : e.printed.tree = e.tree.mapLine fun _ => 1 := ih h.2.1
    simp only [Symbol.Moved, printed, tree, TokenOf.val_printed, TokenOf.printed_eq_mapLine opening (by decide) h.1,
      operand, Expr.mapLine]
  | apply opening arguments closing rest iha ihr =>
    simp only [tokens, List.cons_append, List.forall_mem_append, List.forall_mem_cons] at h
    have list : arguments.printed.tree = arguments.tree.map (Expr.mapLine fun _ => 1) := iha h.2.1
    intro callee
    have step := ihr h.2.2.2 (.call closing.1 callee arguments.tree)
    simp only [Expr.mapLine, Expr.mapLines_eq_map] at step
    simp only [printed, tree, TokenOf.val_printed, TokenOf.printed_eq_mapLine closing (by decide) h.2.2.1, list]
    exact step
  | _ =>
    simp only [tokens, List.forall_mem_append, List.forall_mem_cons] at h
    simp_all [Symbol.Moved, Item.mapLine, Expr.mapLine, Statement.mapLine]

/-! ## Reports -/

end Derivation

/-- How many over-long lists there are in an item. -/
def Item.overlong : (item : Item) → item.Tree → Nat
  | .name, _ => 0
  | .expression, tree => tree.overlong

/-- The reports are as many as there are over-long lists in a tree. Those in a part that follows an expression come
on top of those in the expression. -/
def Symbol.Counts : (s : Symbol) → s.Tree → Nat → Prop
  | .declaration, tree, reports => tree.overlong = reports
  | .item i, tree, reports => i.overlong tree = reports
  | .phrase _, tree, reports => tree.overlong = reports
  | .operands _, grow, reports | .calls, grow, reports => ∀ e, (grow e).overlong = e.overlong + reports
  | .items i, trees, reports => (trees.map i.overlong).sum + (if 255 < trees.length then 1 else 0) = reports
  | .moreItems i before, trees, reports =>
    (trees.map i.overlong).sum + (if before ≤ 255 ∧ 255 < before + trees.length then 1 else 0) = reports
  | .elements, trees, reports => (trees.map Expr.overlong).sum = reports
  | .filter, tree?, reports => Expr.overlong? tree? = reports

theorem Item.sum_overlong_names (names : List Token) : (names.map Item.name.overlong).sum = 0 := by
  induction names with
  | nil => rfl
  | cons name names ih => rw [List.map_cons, List.sum_cons, ih, overlong]

namespace Derivation

/-- A list runs over at its next item, behind it, or not at all. -/
theorem overlong_step (before more : Nat) :
    (if before ≤ 255 ∧ 255 < before + (more + 1) then 1 else 0) =
      (if before = 255 then 1 else 0) + if before + 1 ≤ 255 ∧ 255 < before + 1 + more then 1 else 0 := by
  split <;> split <;> split <;> omega

theorem counts_reports_printed (d : Derivation s) (h : ∀ token ∈ d.tokens, token.Legible) :
    s.Counts d.tree d.printed.reports.length := by
  induction d with
  | assign target sign value iht ihv =>
    simp only [tokens, List.forall_mem_append, List.forall_mem_cons] at h
    have left : target.printed.tree = target.tree.mapLine fun _ => 1 := target.moved_printed h.1
    have counted : target.tree.overlong = target.printed.reports.length := iht h.1
    have right : value.tree.overlong = value.printed.reports.length := ihv h.2.2
    simp only [Symbol.Counts, Item.overlong, printed, tree]
    cases ht : target.tree <;> rw [ht] at counted left <;>
      simp [left, right, ← counted, Expr.mapLine, Expr.overlong]
  | function _ _ _ parameters _ _ body _ _ ihp ihb =>
    simp only [tokens, List.cons_append, List.append_assoc, List.forall_mem_append, List.forall_mem_cons] at h
    have list := ihp h.2.2.2.1
    have value : body.tree.overlong = body.printed.reports.length := ihb h.2.2.2.2.2.2.1
    have none : (parameters.tree.map Item.name.overlong).sum = 0 := Item.sum_overlong_names parameters.tree
    simp only [Symbol.Counts, none, Nat.zero_add] at list
    simp only [Symbol.Counts, tree, Statement.overlong, printed, reports, List.length_append, ← list, value]
  | operand sign op _ _ right rest ihe ihr =>
    simp only [tokens, List.cons_append, List.forall_mem_append, List.forall_mem_cons] at h
    have operand : right.tree.overlong = right.printed.reports.length := ihe h.2.1
    intro left
    have step := ihr h.2.2 (.binary op sign left right.tree)
    simp only [Expr.overlong] at step
    simp only [tree, printed, reports, List.length_append, step, operand, Nat.add_assoc]
  | apply opening arguments closing rest iha ihr =>
    simp only [tokens, List.cons_append, List.forall_mem_append, List.forall_mem_cons] at h
    have list := iha h.2.1
    intro callee
    have step := ihr h.2.2.2 (.call closing.1 callee arguments.tree)
    simp only [Expr.overlong, Expr.overlongs_eq_sum] at step
    simp only [Symbol.Counts] at list
    simp only [tree, printed, reports, List.length_append, step, ← list, Nat.add_assoc]
    rfl
  | @items i first rest ihf ihr =>
    simp only [tokens, List.forall_mem_append] at h
    have one : i.overlong first.tree = first.printed.reports.length := ihf h.1
    have more : (rest.tree.map i.overlong).sum + (if 1 ≤ 255 ∧ 255 < 1 + rest.tree.length then 1 else 0) =
      rest.printed.reports.length := ihr h.2
    change i.overlong first.tree + (rest.tree.map i.overlong).sum + (if 255 < rest.tree.length + 1 then 1 else 0) = _
    rw [printed, reports, List.length_append, ← one, ← more]
    simp only [show 1 ≤ 255 from by decide, true_and, Nat.add_comm 1, Nat.add_assoc]
  | @item i before comma next rest ihn ihr =>
    simp only [tokens, List.cons_append, List.forall_mem_append, List.forall_mem_cons] at h
    have one : i.overlong next.tree = next.printed.reports.length := ihn h.2.1
    have more : (rest.tree.map i.overlong).sum +
        (if before + 1 ≤ 255 ∧ 255 < before + 1 + rest.tree.length then 1 else 0) = rest.printed.reports.length :=
      ihr h.2.2
    have here : (if before = 255 then [SyntaxError.mk (.tooManyArguments 255) next.printed.line] else []).length =
        if before = 255 then 1 else 0 := by split <;> rfl
    change i.overlong next.tree + (rest.tree.map i.overlong).sum +
      (if before ≤ 255 ∧ 255 < before + (rest.tree.length + 1) then 1 else 0) = _
    rw [printed, reports, List.length_append, List.length_append, here, overlong_step, ← one, ← more]
    omega
  | comprehension _ _ _ _ _ _ _ _ ihr _ ihd ihf =>
    simp only [tokens, List.cons_append, List.append_assoc, List.forall_mem_append, List.forall_mem_cons] at h
    have result := ihr h.2.1
    have domain := ihd h.2.2.2.2.2.1
    have filter := ihf h.2.2.2.2.2.2.1
    simp only [Symbol.Counts, Item.overlong] at result domain filter
    simp only [Symbol.Counts, tree, printed, reports, Expr.overlong, List.length_append, result, domain, filter,
      Nat.add_assoc]
  | _ =>
    simp only [tokens, List.forall_mem_append, List.forall_mem_cons] at h
    simp_all [Symbol.Counts, Item.overlong, Expr.overlong, Expr.overlongs_eq_sum, Expr.overlong?, Statement.overlong]

/-- About what is written only over-long lists are reported. -/
theorem cause_of_mem_reports_printed (d : Derivation s) (h : ∀ token ∈ d.tokens, token.Legible) :
    ∀ report ∈ d.printed.reports, report.cause = .tooManyArguments 255 := by
  induction d with
  | assign target sign value iht ihv =>
    simp only [tokens, List.forall_mem_append, List.forall_mem_cons] at h
    have left : target.printed.tree = target.tree.mapLine fun _ => 1 := target.moved_printed h.1
    have ht := iht h.1
    have hv := ihv h.2.2
    rw [printed]
    split
    · next name hn =>
      simp only [reports, left, hn, Expr.mapLine, List.append_nil, List.forall_mem_append]
      exact ⟨ht, hv⟩
    · exact ht
  | item comma next rest ihn ihr =>
    simp only [tokens, List.cons_append, List.forall_mem_append, List.forall_mem_cons] at h
    simp only [printed, reports, List.forall_mem_append]
    refine ⟨⟨?_, ihn h.2.1⟩, ihr h.2.2⟩
    intro report hr
    split at hr
    · rw [List.mem_singleton.mp hr]
    · cases hr
  | _ =>
    simp only [tokens, List.forall_mem_append, List.forall_mem_cons] at h
    simp only [printed, reports, List.forall_mem_append]
    simp_all

end Derivation

end Grammar

end SetScript
