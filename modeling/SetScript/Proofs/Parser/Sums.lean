import Mathlib.Data.List.Basic
import SetScript.Proofs.Cursor.Expression
import SetScript.Proofs.Grammar.Reading
import SetScript.Syntax.Equality
/-!
# Sums and differences

A loop goes on for as long as the first token is one of its operators, so none of them stands behind a layer
(`ends_leftAssoc`), and a layer over it without other operators stops at once. That makes the layer for `-` alone
redundant: the layer of sums has taken every `-` before it, together with every `+` and from left to right
(`difference_eq_term`).
-/

namespace SetScript

/-- An expression whose last operator is `+` or `-` and that has no parentheses around it. -/
def Expr.IsSum : Expr → Prop
  | .binary op _ _ _ => op = .add ∨ op = .sub
  | _ => False

namespace Parser

open SetScript.Grammar (operandRound layerOp_eq_some)

variable {α σ : Type} {endLine : Nat} {tokens rest : List Token} {reports : List SyntaxError}
  {ops ops' : List BinaryOp} {operand : Parser Expr}

/-! ## Layers over layers -/

/-- A layer with fewer operators does not take what a layer with more of them leaves. -/
theorem layerOp_eq_none_of_subset (h : ops' ⊆ ops) {token : Token} (left : layerOp ops token = none) :
    layerOp ops' token = none := by
  simp only [layerOp, Option.map_eq_none_iff, Option.filter_eq_none_iff, decide_eq_true_eq] at left ⊢
  exact fun op spells inside => left op spells (h inside)

/-- A loop that gives a result has stopped in front of a token that it does not take. -/
theorem iterateReply_stops (accept : Token → Option σ) (next : σ → α → Parser α) (endLine : Nat) (a : α)
    (tokens : List Token) {b : α} (h : (iterateReply accept next endLine a tokens).result = .ok b) :
    (iterateReply accept next endLine a tokens).rest.head?.bind accept = none := by
  fun_induction iterateReply accept next endLine a tokens with
  | case1 => rfl
  | case2 a token tokens stop => exact stop
  | case3 => cases h
  | case4 a token tokens s _ round b _ reply ih => exact ih h

/-- No operator of a layer stands behind what the layer has read. -/
theorem ends_leftAssoc {e : Expr} (h : (leftAssoc ops operand).Gives endLine tokens e rest reports) :
    rest.head?.bind (layerOp ops) = none := by
  obtain ⟨first, between, before, behind, -, loop, -⟩ := gives_bind.mp h
  have stops := iterateReply_stops (layerOp ops) _ endLine first between (congrArg Reply.result loop)
  rwa [show iterateReply _ _ endLine first between = _ from loop] at stops

/-- A layer takes nothing behind its first operand exactly when no operator of it stands there. -/
theorem run_leftAssoc_eq_iff (ops : List BinaryOp) (p : Parser Expr) (endLine : Nat) (tokens : List Token) :
    (leftAssoc ops p).run endLine tokens = p.run endLine tokens ↔
      ∀ e rest reports, p.Gives endLine tokens e rest reports → rest.head?.bind (layerOp ops) = none := by
  rw [show leftAssoc ops p = p >>= iterate (layerOp ops) (operandRound p) from rfl]
  constructor
  · intro same e rest reports read
    rw [show p.run endLine tokens = _ from read] at same
    obtain ⟨first, between, before, behind, hp, loop, -⟩ := gives_bind.mp same
    have one : (Reply.mk (.ok first) between before) = ⟨.ok e, rest, reports⟩ := hp.symm.trans read
    cases one
    have stops := iterateReply_stops (layerOp ops) _ endLine e rest (congrArg Reply.result loop)
    rwa [show iterateReply _ _ endLine e rest = _ from loop] at stops
  · intro ends
    cases hr : p.run endLine tokens with
    | mk result rest reports =>
      cases result with
      | error error => rw [run_bind, hr]
      | ok e =>
        have stops := ends e rest reports hr
        exact gives_bind.mpr ⟨e, rest, reports, [], hr, (gives_iterate_stop stops).mpr ⟨rfl, rfl, rfl⟩,
          List.append_nil _⟩

/-- Behind a layer a second one that has no other operators takes nothing. -/
theorem run_leftAssoc_leftAssoc (h : ops' ⊆ ops) (operand : Parser Expr) (endLine : Nat) (tokens : List Token) :
    (leftAssoc ops' (leftAssoc ops operand)).run endLine tokens = (leftAssoc ops operand).run endLine tokens :=
  (run_leftAssoc_eq_iff ops' (leftAssoc ops operand) endLine tokens).mpr fun _ _ _ read =>
    Option.bind_eq_none_iff.mpr fun token first =>
      layerOp_eq_none_of_subset h (Option.bind_eq_none_iff.mp (ends_leftAssoc read) token first)

/-! ## Chains of operators -/

/-- Operators of a layer one behind the other: an operand, or an operator between all that stands before it and the one
operand that stands behind it. -/
inductive Chain (ops : List BinaryOp) (operand : Parser Expr) (endLine : Nat) (tokens : List Token) :
    Expr → List Token → Prop where
  | operand {e : Expr} {rest : List Token} {reports : List SyntaxError}
    (read : operand.Gives endLine tokens e rest reports) : Chain ops operand endLine tokens e rest
  | apply {left right : Expr} {op : BinaryOp} {sign : Token} {between rest : List Token} {reports : List SyntaxError}
    (before : Chain ops operand endLine tokens left (sign :: between)) (spells : BinaryOp.ofKind? sign.kind = some op)
    (inLayer : op ∈ ops) (read : operand.Gives endLine between right rest reports) :
    Chain ops operand endLine tokens (.binary op sign left right) rest

/-- Each round of a layer puts one more operator behind what has been read so far. -/
theorem chain_iterateReply {left e : Expr} {between : List Token}
    (before : Chain ops operand endLine tokens left between)
    (h : (iterateReply (layerOp ops) (operandRound operand) endLine left between).result = .ok e) :
    Chain ops operand endLine tokens e
      (iterateReply (layerOp ops) (operandRound operand) endLine left between).rest := by
  fun_induction iterateReply (layerOp ops) (operandRound operand) endLine left between with
  | case1 | case2 =>
    cases h
    exact before
  | case3 => cases h
  | case4 left sign between taken hs round b hb reply ih =>
    obtain ⟨spells, inLayer, same⟩ := layerOp_eq_some.mp hs
    have read : (operandRound operand taken left).Gives endLine between b round.rest round.reports := by
      rw [Gives, ← hb]
    obtain ⟨right, rest, reports, _, hr, hp, -⟩ := gives_bind.mp read
    obtain ⟨rfl, hrest, -⟩ := gives_pure.mp hp
    have chain := before.apply spells inLayer hr
    rw [same, hrest] at chain
    exact ih chain h

/-- A layer applies its operators from left to right. -/
theorem chain_leftAssoc {e : Expr} (h : (leftAssoc ops operand).Gives endLine tokens e rest reports) :
    Chain ops operand endLine tokens e rest := by
  rw [show leftAssoc ops operand = operand >>= iterate (layerOp ops) (operandRound operand) from rfl, gives_bind] at h
  obtain ⟨first, between, before, behind, read, loop, -⟩ := h
  have chain := chain_iterateReply (.operand read) (congrArg Reply.result loop)
  rwa [show iterateReply _ _ endLine first between = _ from loop] at chain

/-! ## Operands of sums -/

/-- No result of the parser is a sum. -/
def NoSum (p : Parser Expr) : Prop :=
  ∀ endLine tokens e rest reports, p.Gives endLine tokens e rest reports → ¬ e.IsSum

theorem NoSum.pure {e : Expr} (h : ¬ e.IsSum) : NoSum (pure e) := by
  intro endLine tokens e' rest reports he
  obtain ⟨rfl, -, -⟩ := gives_pure.mp he
  exact h

theorem NoSum.bind {p : Parser α} {f : α → Parser Expr} (hf : ∀ a, NoSum (f a)) : NoSum (p >>= f) := by
  intro endLine tokens e rest reports he
  obtain ⟨a, between, _, behind, -, ha, -⟩ := gives_bind.mp he
  exact hf a endLine between e rest behind ha

theorem NoSum.unexpected (expected : String) : NoSum (unexpected expected) :=
  fun _ _ _ _ _ h => absurd h not_gives_unexpected

theorem NoSum.iterate {accept : Token → Option σ} {next : σ → Expr → Parser Expr}
    (hn : ∀ token s e, accept token = some s → NoSum (next s e)) {e : Expr} (he : ¬ e.IsSum) :
    NoSum (iterate accept next e) := by
  intro endLine tokens e' rest reports h
  have result : (iterateReply accept next endLine e tokens).result = .ok e' := congrArg Reply.result h
  clear h
  fun_induction iterateReply accept next endLine e tokens with
  | case1 | case2 =>
    cases result
    exact he
  | case3 => cases result
  | case4 e token tokens s hs round b hb reply ih =>
    have read : (next s e).Gives endLine tokens b round.rest round.reports := by rw [Gives, ← hb]
    exact ih (hn token s e hs _ _ _ _ _ read) result

theorem setTail_noSum (inner : Nested) : NoSum (setTail inner) := by
  refine .bind ?_
  rintro (_ | _)
  · refine .bind fun first => .bind ?_
    rintro (_ | _)
    · exact .bind fun _ => .bind fun _ => .pure not_false
    · refine .bind fun bound => .bind fun _ => .bind fun domain => .bind ?_
      rintro (_ | _)
      · exact .bind fun _ => .bind fun _ => .pure not_false
      · exact .bind fun _ => .bind fun _ => .pure not_false
  · exact .pure not_false

theorem primary_noSum (inner : Nested) : NoSum (primary inner) := by
  refine .bind ?_
  rintro (_ | token)
  · exact .unexpected _
  · obtain ⟨kind, lexeme, literal?, line⟩ := token
    cases kind with
    | number | string | trueWord | falseWord =>
      cases literal? with
      | none => exact .unexpected _
      | some value => exact .bind fun _ => .pure not_false
    | identifier => exact .bind fun _ => .pure not_false
    | leftParen | pipe => exact .bind fun _ => .bind fun _ => .bind fun _ => .pure not_false
    | leftBrace => exact .bind fun _ => setTail_noSum inner
    | _ => exact .unexpected _

theorem call_noSum (inner : Nested) : NoSum (call inner) := by
  intro endLine tokens e rest reports h
  obtain ⟨callee, between, _, behind, hc, loop, -⟩ := gives_bind.mp h
  have first := primary_noSum inner _ _ _ _ _ hc
  exact NoSum.iterate (fun _ _ _ _ => .bind fun (_, _) => .pure not_false) first _ _ _ _ _ loop

theorem unary_noSum (inner : Nested) : NoSum (unary inner) := by
  refine .bind ?_
  rintro (_ | ⟨op, line⟩)
  · exact call_noSum inner
  · exact .bind fun _ => .pure not_false

theorem factor_noSum (inner : Nested) : NoSum (factor inner) := by
  intro endLine tokens e rest reports h
  obtain ⟨first, between, _, behind, hf, loop, -⟩ := gives_bind.mp h
  have start := unary_noSum inner _ _ _ _ _ hf
  refine NoSum.iterate (fun token sign left hs => .bind fun right => .pure ?_) start _ _ _ _ _ loop
  obtain ⟨-, inLayer, -⟩ := layerOp_eq_some.mp hs
  rintro (h | h) <;> simp [h] at inLayer

end Parser

/-! ## Under a cursor -/

namespace Cursor

open SetScript.Parser (layerOp layerOp_eq_none_of_subset)

variable {α σ : Type} {stream : List Token} {state after : State} {ops ops' : List BinaryOp} {rounds : Nat}
  {operand : Machine Expr}

/-- Nothing is accepted, and the machine has not moved, exactly when it stands at a token that is not wanted. -/
theorem run_accept?_eq_none {accept : Token → Option σ} :
    (accept? accept).run stream state = (.ok none, after) ↔
      state = after ∧ ∃ token, stream[state.place.position]? = some token ∧ accept token = none := by
  rw [accept?, Machine.run_bind]
  cases there : stream[state.place.position]? with
  | none =>
    have nowhere : peek.run stream state = (.error .outside, state) := by simp only [peek, there]
    simp [nowhere]
  | some token =>
    have here : peek.run stream state = (.ok token, state) := by simp only [peek, there]
    rw [here]
    dsimp only
    cases ha : accept token with
    | none =>
      constructor
      · rintro ⟨⟩
        exact ⟨rfl, token, rfl, ha⟩
      · rintro ⟨rfl, -⟩
        rfl
    | some s =>
      simp only [Machine.run_bind, Option.some.injEq, exists_eq_left', ha, reduceCtorEq, and_false, iff_false]
      cases advance.run stream state with
      | mk result moved => cases result <;> simp [Pure.pure, Machine.pure]

/-- A loop that gives a result stands at a token that it does not take. -/
theorem iterate_stops {accept : Token → Option σ} {next : σ → α → Machine α} {rounds : Nat} {a b : α}
    (h : (iterate accept next rounds a).run stream state = (.ok b, after)) :
    (accept? accept).run stream after = (.ok none, after) := by
  induction rounds generalizing a state with
  | zero => cases h
  | succ rounds ih =>
    rw [iterate, Machine.run_bind] at h
    cases hs : (accept? accept).run stream state with
    | mk result between =>
      rw [hs] at h
      rcases result with halt | _ | s
      · cases h
      · cases h
        exact (run_accept?_eq_none.mp hs).1 ▸ hs
      · change (next s a >>= iterate accept next rounds).run stream between = _ at h
        rw [Machine.run_bind] at h
        cases hn : (next s a).run stream between with
        | mk result later =>
          rw [hn] at h
          cases result with
          | error halt => cases h
          | ok c => exact ih h

theorem ends_leftAssoc {e : Expr} (h : (leftAssoc rounds ops operand).run stream state = (.ok e, after)) :
    0 < rounds ∧ ∃ token, stream[after.place.position]? = some token ∧ layerOp ops token = none := by
  change (operand >>= iterate (layerOp ops) _ rounds).run stream state = _ at h
  rw [Machine.run_bind] at h
  cases ho : operand.run stream state with
  | mk result between =>
    rw [ho] at h
    cases result with
    | error halt => cases h
    | ok first =>
      refine ⟨Nat.pos_of_ne_zero ?_, (run_accept?_eq_none.mp (iterate_stops h)).2⟩
      rintro rfl
      cases h

theorem run_leftAssoc_leftAssoc (h : ops' ⊆ ops) (rounds : Nat) (operand : Machine Expr) (stream : List Token)
    (state : State) :
    (leftAssoc rounds ops' (leftAssoc rounds ops operand)).run stream state =
      (leftAssoc rounds ops operand).run stream state := by
  change (leftAssoc rounds ops operand >>= iterate (layerOp ops') _ rounds).run stream state = _
  rw [Machine.run_bind]
  cases hr : (leftAssoc rounds ops operand).run stream state with
  | mk result after =>
    cases result with
    | error halt => rfl
    | ok e =>
      obtain ⟨enough, token, there, left⟩ := ends_leftAssoc hr
      obtain ⟨rounds, rfl⟩ := Nat.exists_eq_succ_of_ne_zero (Nat.ne_of_gt enough)
      have stops := run_accept?_eq_none.mpr ⟨rfl, token, there, layerOp_eq_none_of_subset h left⟩
      dsimp only
      rw [iterate, Machine.run_bind, stops]
      rfl

end Cursor

/-! ## Main theorem -/

namespace Parser

theorem no_sign_of_layerOp {token : Token} (h : layerOp [.add, .sub] token = none) :
    token.kind ≠ .plus ∧ token.kind ≠ .minus := by
  constructor <;> intro sign <;> rw [layerOp, sign] at h <;> cases h

/-- The layer for `-` alone reads what the layer of sums reads, in every state of the parser: with the same result or
error, the same reports and the same tokens left. For where the layer of sums has a result, no `+` or `-` stands behind
it. Its operators are all applied from left to right, each to one factor, and no factor is a sum without parentheses.
Under a cursor it is the same at every position of any stream and on every level. -/
theorem difference_eq_term (inner : Nested) (endLine : Nat) (tokens : List Token) :
    (difference inner).run endLine tokens = (term inner).run endLine tokens ∧
      (∀ e rest reports, (term inner).Gives endLine tokens e rest reports →
        (∀ token ∈ rest.head?, token.kind ≠ .plus ∧ token.kind ≠ .minus) ∧
          Chain [.add, .sub] (factor inner) endLine tokens e rest) ∧
      NoSum (factor inner) ∧
      ∀ (rounds : Nat) (factor : Cursor.Machine Expr) (stream : List Token) (state : Cursor.State),
        let term := Cursor.leftAssoc rounds [.add, .sub] factor
        (Cursor.leftAssoc rounds [.sub] term).run stream state = term.run stream state ∧
          ∀ e after, term.run stream state = (.ok e, after) →
            ∃ token, stream[after.place.position]? = some token ∧ token.kind ≠ .plus ∧ token.kind ≠ .minus := by
  have fewer : [BinaryOp.sub] ⊆ [.add, .sub] := by decide
  refine ⟨run_leftAssoc_leftAssoc fewer (factor inner) endLine tokens, fun e rest reports read => ⟨?_, ?_⟩,
    factor_noSum inner, fun rounds factor stream state => ⟨?_, fun e after run => ?_⟩⟩
  · exact fun token first => no_sign_of_layerOp (Option.bind_eq_none_iff.mp (ends_leftAssoc read) token first)
  · exact chain_leftAssoc read
  · exact Cursor.run_leftAssoc_leftAssoc fewer rounds factor stream state
  · obtain ⟨-, token, there, left⟩ := Cursor.ends_leftAssoc run
    exact ⟨token, there, no_sign_of_layerOp left⟩

/-- `a - b + c;` -/
def differenceOfThree : List Token :=
  [⟨.identifier, "a", none, 1⟩, ⟨.minus, "-", none, 1⟩, ⟨.identifier, "b", none, 1⟩, ⟨.plus, "+", none, 1⟩,
    ⟨.identifier, "c", none, 1⟩, ⟨.semicolon, ";", none, 1⟩]

/-- It is the sum of a difference. -/
theorem difference_eq_term_sum :
    let inner := nested maxNesting
    let sum : Expr := .binary .add ⟨.plus, "+", none, 1⟩
      (.binary .sub ⟨.minus, "-", none, 1⟩ (.variable (.identifier "a" 1)) (.variable (.identifier "b" 1)))
      (.variable (.identifier "c" 1))
    let rest := differenceOfThree.drop 5
    let term' := Cursor.leftAssoc 7 [.add, .sub] (Cursor.unary 7 (Cursor.readers 7 7))
    ((term inner).Gives 1 differenceOfThree sum rest [] ∧
        ((difference inner).run 1 differenceOfThree).result = .ok sum ∧
        (∀ token ∈ rest.head?, token.kind ≠ .plus ∧ token.kind ≠ .minus) ∧
        Chain [.add, .sub] (factor inner) 1 differenceOfThree sum rest) ∧
      ∃ after, term'.run differenceOfThree .start = (.ok sum, after) ∧
        (Cursor.leftAssoc 7 [.sub] term').run differenceOfThree .start = (.ok sum, after) ∧
        ∃ token, differenceOfThree[after.place.position]? = some token ∧ token.kind ≠ .plus ∧ token.kind ≠ .minus := by
  intro inner sum rest term'
  have read : (term inner).Gives 1 differenceOfThree sum rest [] := by cbv
  obtain ⟨after, run⟩ : ∃ after, term'.run differenceOfThree .start = (.ok sum, after) := ⟨_, rfl⟩
  obtain ⟨same, sums, -, machines⟩ := difference_eq_term inner 1 differenceOfThree
  obtain ⟨ends, chain⟩ := sums sum rest [] read
  obtain ⟨same', ends'⟩ := machines 7 (Cursor.unary 7 (Cursor.readers 7 7)) differenceOfThree .start
  refine ⟨⟨read, ?_, ends, chain⟩, after, run, same'.trans run, ends' sum after run⟩
  rw [same, show (term inner).run 1 differenceOfThree = _ from read]

end Parser

end SetScript
