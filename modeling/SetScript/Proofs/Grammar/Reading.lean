import SetScript.Proofs.Grammar.Firsts
import SetScript.Proofs.Parser.Success
/-!
# The parsers read derivations

A parser of a symbol gives a result exactly for a stream that begins with a derivation of the symbol, and the result
is the tree of that derivation (`Reads`). A layer of operators does so when the parser of its operands does
(`reads_leftAssoc`), and a list when the parser of its items does (`gives_listUntil`).
-/

namespace SetScript.Grammar

open SetScript.Parser

/-- The derivation stands at the beginning of the stream and goes as far as it can; what it is read as, what is
left and what is reported. -/
structure Derivation.Spells {s : Symbol} (d : Derivation s) (stream : List Token) (tree : s.Tree)
    (rest : List Token) (reports : List SyntaxError) : Prop where
  tokens : d.tokens ++ rest = stream
  ends : Ends s.continuedBy rest
  tree : d.tree = tree
  reports : d.reports = reports

/-- The parser gives exactly what the fitting derivations of the symbol spell. -/
def Reads (s : Symbol) (p : Parser s.Tree) (fits : Derivation s → Prop) : Prop :=
  ∀ endLine stream tree rest reports, p.Gives endLine stream tree rest reports ↔
    ∃ d : Derivation s, fits d ∧ d.Spells stream tree rest reports

/-- The derivations that are at most `n` levels deep. -/
def Within {s : Symbol} (n : Nat) (d : Derivation s) : Prop := d.depth ≤ n

/-- What a loop gives that makes something of the tree of a symbol which can be empty. -/
def Loops (s : Symbol) {α : Type} (n : Nat) (make : s.Tree → α) (stream : List Token) (a : α) (rest : List Token)
    (reports : List SyntaxError) : Prop :=
  ∃ d : Derivation s, Within n d ∧ d.Spells stream d.tree rest reports ∧ make d.tree = a

/-- What the parsers `Nested` read that have `n` levels left. The operand of a prefix operator is a level. -/
structure NestedReads (inner : Nested) (n : Nat) : Prop where
  expression : Reads .expression inner.expression (Within n)
  operand : Reads (.phrase .unary) inner.operand fun d => d.depth < n

variable {endLine n : Nat} {stream rest : List Token} {reports : List SyntaxError}

/-! ## The layers of infix operators -/

theorem layerOp_eq_some {ops : List BinaryOp} {token : Token} {sign : BinaryOp × Token} :
    layerOp ops token = some sign ↔
      BinaryOp.ofKind? token.kind = some sign.1 ∧ sign.1 ∈ ops ∧ token = sign.2 := by
  obtain ⟨op, operator⟩ := sign
  simp only [layerOp, Option.map_eq_some_iff, Option.filter_eq_some_iff, decide_eq_true_eq, Prod.mk.injEq,
    and_assoc]
  constructor
  · rintro ⟨op', hk, hm, rfl, rfl⟩
    exact ⟨hk, hm, rfl⟩
  · rintro ⟨hk, hm, rfl⟩
    exact ⟨op, hk, hm, rfl, rfl⟩

theorem layerOp_of_spells {l : Layer} {token : Token} {op : BinaryOp}
    (spells : BinaryOp.ofKind? token.kind = some op) (inLayer : op ∈ l.ops) :
    layerOp l.ops token = some (op, token) := layerOp_eq_some.mpr ⟨spells, inLayer, rfl⟩

/-- One more operator and its operand behind an expression. -/
def operandRound (operand : Parser Expr) (sign : BinaryOp × Token) (left : Expr) : Parser Expr := do
  let right ← operand
  return .binary sign.1 sign.2 left right

theorem gives_operandRound {l : Layer} {operand : Parser Expr} (h : Reads (.phrase l.operand) operand (Within n))
    {sign : BinaryOp × Token} {left tree : Expr} :
    (operandRound operand sign left).Gives endLine stream tree rest reports ↔
      ∃ right : Derivation (.phrase l.operand), Within n right ∧ right.Spells stream right.tree rest reports ∧
        .binary sign.1 sign.2 left right.tree = tree := by
  unfold operandRound
  rw [gives_bind]
  constructor
  · rintro ⟨right, between, before, behind, hr, hp, rfl⟩
    obtain ⟨d, hd, hs⟩ := (h _ _ _ _ _).mp hr
    obtain ⟨rfl, rfl, rfl⟩ := gives_pure.mp hp
    exact ⟨d, hd, ⟨hs.tokens, hs.ends, rfl, by rw [hs.reports, List.append_nil]⟩, by rw [hs.tree]⟩
  · rintro ⟨d, hd, hs, rfl⟩
    exact ⟨d.tree, rest, reports, [], (h _ _ _ _ _).mpr ⟨d, hd, hs⟩, gives_pure.mpr ⟨rfl, rfl, rfl⟩,
      List.append_nil _⟩

theorem operandLoop_stop {l : Layer} {left tree : Expr} (h : Ends l.operand.continuedBy stream)
    (hs : stream.head?.bind (layerOp l.ops) = none) :
    Loops (.operands l) n (· left) stream tree rest reports ↔ left = tree ∧ stream = rest ∧ [] = reports := by
  constructor
  · rintro ⟨d, -, hd, rfl⟩
    have ht := hd.tokens
    have hr := hd.reports
    cases d with
    | noOperand => exact ⟨rfl, ht.symm, hr⟩
    | operand sign op spells inLayer =>
      have := layerOp_of_spells spells inLayer
      rw [← ht, Derivation.tokens, List.cons_append, List.cons_append, List.head?_cons, Option.bind_some, this] at hs
      cases hs
  · rintro ⟨rfl, rfl, rfl⟩
    refine ⟨.noOperand, Nat.zero_le n, ⟨rfl, fun token ht hk => ?_, rfl, rfl⟩, rfl⟩
    rcases List.mem_append.mp hk with hk | hk
    · obtain ⟨op, hop, spells⟩ := Layer.exists_op hk
      rw [show stream.head? = some token from ht, Option.bind_some, layerOp_of_spells spells hop] at hs
      cases hs
    · exact h token ht (l.operand_continuedBy ▸ hk)

theorem operandLoop_next {l : Layer} {operand : Parser Expr} (h : Reads (.phrase l.operand) operand (Within n))
    {token : Token} {sign : BinaryOp × Token} {left tree : Expr} (hs : layerOp l.ops token = some sign) :
    Loops (.operands l) n (· left) (token :: stream) tree rest reports ↔
      ∃ tree' between before behind, (operandRound operand sign left).Gives endLine stream tree' between before ∧
        Loops (.operands l) n (· tree') between tree rest behind ∧ before ++ behind = reports := by
  obtain ⟨spells, inLayer, same⟩ := layerOp_eq_some.mp hs
  constructor
  · rintro ⟨d, hd, hsp, rfl⟩
    have ht := hsp.tokens
    cases d with
    | noOperand =>
      have he := hsp.ends
      rw [show rest = token :: stream from ht, ends_cons] at he
      exact absurd (List.mem_append_left _ (Layer.mem_kinds spells inLayer)) he
    | operand sign' op' spells' inLayer' right more =>
      simp only [Derivation.tokens, List.cons_append, List.append_assoc, List.cons.injEq] at ht
      obtain ⟨rfl, rfl⟩ := ht
      obtain rfl : sign.1 = op' := Option.some.inj (spells.symm.trans spells')
      refine ⟨_, more.tokens ++ rest, right.reports, more.reports, (gives_operandRound h).mpr ⟨right, ?_, ?_, rfl⟩,
        ⟨more, ?_, ⟨rfl, hsp.ends, rfl, rfl⟩, ?_⟩, hsp.reports⟩
      · exact (Nat.max_le.mp hd).1
      · exact ⟨rfl, more.ends_operand hsp.ends, rfl, rfl⟩
      · exact (Nat.max_le.mp hd).2
      · rw [← same, Derivation.tree]
  · rintro ⟨_, between, before, behind, hr, ⟨more, hm, hsp, rfl⟩, rfl⟩
    obtain ⟨right, hd, hsr, rfl⟩ := (gives_operandRound h).mp hr
    refine ⟨.operand token sign.1 spells inLayer right more, Nat.max_le.mpr ⟨hd, hm⟩,
      ⟨?_, hsp.ends, rfl, ?_⟩, ?_⟩
    · rw [Derivation.tokens, List.cons_append, List.cons_append, List.append_assoc, hsp.tokens, hsr.tokens]
    · rw [Derivation.reports, hsr.reports, hsp.reports]
    · rw [Derivation.tree, same]

/-- A layer reads its operands and operators when the parser of the operands does. -/
theorem reads_leftAssoc {l : Layer} {operand : Parser Expr} (h : Reads (.phrase l.operand) operand (Within n)) :
    Reads (.phrase (.layer l)) (leftAssoc l.ops operand) (Within n) := by
  intro endLine stream tree rest reports
  -- Each operand ends where nothing continues it, and all the loop relies on is that its rounds begin there.
  have loop : ∀ {left stream rest reports}, Ends l.operand.continuedBy stream →
      ((iterate (layerOp l.ops) (operandRound operand) left).Gives endLine stream tree rest reports ↔
        Loops (.operands l) n (· left) stream tree rest reports) :=
    fun he => gives_iterate_iff (Ends l.operand.continuedBy) (fun left => Loops (.operands l) n (· left))
      (fun hr => by obtain ⟨_, _, hs, _⟩ := (gives_operandRound h).mp hr; exact hs.ends) operandLoop_stop
      (operandLoop_next h) he
  rw [show leftAssoc l.ops operand = operand >>= iterate (layerOp l.ops) (operandRound operand) from rfl, gives_bind]
  constructor
  · rintro ⟨left, between, before, behind, hf, hl, rfl⟩
    obtain ⟨first, hd, hs⟩ := (h _ _ _ _ _).mp hf
    obtain ⟨more, hm, hsm, rfl⟩ := (loop hs.ends).mp hl
    refine ⟨.chain first more, Nat.max_le.mpr ⟨hd, hm⟩, ?_, hsm.ends, ?_, ?_⟩
    · rw [Derivation.tokens, List.append_assoc, hsm.tokens, hs.tokens]
    · rw [Derivation.tree, hs.tree]
    · rw [Derivation.reports, hs.reports, hsm.reports]
  · rintro ⟨d, hd, hs⟩
    cases d with
    | chain first more =>
      have he := more.ends_operand hs.ends
      refine ⟨first.tree, more.tokens ++ rest, first.reports, more.reports,
        (h _ _ _ _ _).mpr ⟨first, (Nat.max_le.mp hd).1, ?_, he, rfl, rfl⟩,
        (loop he).mpr ⟨more, (Nat.max_le.mp hd).2, ⟨rfl, hs.ends, rfl, rfl⟩, hs.tree⟩, hs.reports⟩
      rw [← hs.tokens, Derivation.tokens, List.append_assoc]

/-! ## Lists -/

theorem lineIf_eq_some {kind : Kind} {token : Token} {line : Nat} :
    lineIf kind token = some line ↔ token.kind = kind ∧ token.line = line := by
  unfold lineIf
  by_cases h : token.kind = kind <;> simp [h]

/-- A loop over commas does not stop in front of a comma. -/
theorem ends_of_lineIf {kind : Kind} {kinds : List Kind} (h : Ends kinds stream)
    (hs : stream.head?.bind (lineIf kind) = none) : Ends (kind :: kinds) stream := by
  intro token ht hk
  rcases List.mem_cons.mp hk with hk | hk
  · rw [show stream.head? = some token from ht, Option.bind_some, lineIf_eq_some.mpr ⟨hk, rfl⟩] at hs
    cases hs
  · exact h token ht hk

theorem head_lineIf {kind : Kind} (token : TokenOf kind) (tokens : List Token) :
    (token.1 :: tokens).head?.bind (lineIf kind) = some token.1.line := by
  rw [List.head?_cons, Option.bind_some, lineIf_eq_some.mpr ⟨token.2, rfl⟩]

/-- A derivation begins on the line that the parser stands on. -/
theorem currentLine_tokens {s : Symbol} (d : Derivation s) (hs : s.optional = false) (endLine : Nat)
    (rest : List Token) : currentLine endLine (d.tokens ++ rest) = d.line := by
  obtain ⟨token, more, ht, -⟩ := d.exists_head hs
  rw [Derivation.line, ht]
  rfl

/-- The report of the item that a full list has no place for. -/
def overflow {i : Item} (before : Nat) (next : Derivation (.item i)) : List SyntaxError :=
  if before = 255 then [⟨.tooManyArguments 255, next.line⟩] else []

theorem gives_appended {i : Item} {item : Parser i.Tree} (h : Reads (.item i) item (Within n))
    {items items' : List i.Tree} :
    (do return items ++ [← item] : Parser (List i.Tree)).Gives endLine stream items' rest reports ↔
      ∃ next : Derivation (.item i), Within n next ∧ next.Spells stream next.tree rest next.reports ∧
        items ++ [next.tree] = items' ∧ next.reports = reports := by
  rw [gives_bind]
  constructor
  · rintro ⟨a, between, before, behind, hi, hp, rfl⟩
    obtain ⟨next, hn, hs⟩ := (h _ _ _ _ _).mp hi
    obtain ⟨rfl, rfl, rfl⟩ := gives_pure.mp hp
    exact ⟨next, hn, ⟨hs.tokens, hs.ends, rfl, rfl⟩, by rw [hs.tree], by rw [hs.reports, List.append_nil]⟩
  · rintro ⟨next, hn, hs, rfl, rfl⟩
    exact ⟨_, _, _, [], (h _ _ _ _ _).mpr ⟨next, hn, hs⟩, gives_pure.mpr ⟨rfl, rfl, rfl⟩, List.append_nil _⟩

theorem gives_limitedItem {i : Item} {item : Parser i.Tree} (h : Reads (.item i) item (Within n))
    {items items' : List i.Tree} :
    (limitedItem item items).Gives endLine stream items' rest reports ↔
      ∃ next : Derivation (.item i), Within n next ∧ next.Spells stream next.tree rest next.reports ∧
        items ++ [next.tree] = items' ∧ overflow items.length next ++ next.reports = reports := by
  unfold limitedItem overflow
  by_cases hl : items.length = 255
  · rw [if_pos (show items.length = maxArguments from hl), gives_bind]
    simp only [hl, if_true]
    constructor
    · rintro ⟨_, between, before, behind, hr, hi, rfl⟩
      obtain ⟨rfl, rfl⟩ := gives_reportHere.mp hr
      obtain ⟨next, hn, hs, rfl, rfl⟩ := (gives_appended h).mp hi
      refine ⟨next, hn, hs, rfl, ?_⟩
      rw [← hs.tokens, currentLine_tokens next rfl]
      rfl
    · rintro ⟨next, hn, hs, rfl, rfl⟩
      refine ⟨(), stream, _, next.reports, gives_reportHere.mpr ⟨rfl, rfl⟩,
        (gives_appended h).mpr ⟨next, hn, hs, rfl, rfl⟩, ?_⟩
      rw [← hs.tokens, currentLine_tokens next rfl]
      rfl
  · rw [if_neg (show items.length ≠ maxArguments from hl)]
    simpa only [hl, if_false, List.nil_append] using gives_appended h

/-- What the loop over further items gives. -/
def ItemLoop (i : Item) (n : Nat) (items : List i.Tree) (stream : List Token) (items' : List i.Tree)
    (rest : List Token) (reports : List SyntaxError) : Prop :=
  ∃ before, before = items.length ∧ Loops (.moreItems i before) n (items ++ ·) stream items' rest reports

theorem itemLoop_stop {i : Item} {items items' : List i.Tree} (h : Ends i.continuedBy stream)
    (hs : stream.head?.bind (lineIf .comma) = none) :
    ItemLoop i n items stream items' rest reports ↔ items = items' ∧ stream = rest ∧ [] = reports := by
  constructor
  · rintro ⟨before, -, d, -, hd, rfl⟩
    have ht := hd.tokens
    have hr := hd.reports
    cases d with
    | lastItem => exact ⟨(List.append_nil _).symm, ht.symm, hr⟩
    | item comma =>
      rw [← ht, Derivation.tokens, List.cons_append, List.cons_append, head_lineIf] at hs
      cases hs
  · rintro ⟨rfl, rfl, rfl⟩
    exact ⟨_, rfl, .lastItem, Nat.zero_le n, ⟨rfl, ends_of_lineIf h hs, rfl, rfl⟩, List.append_nil _⟩

theorem itemLoop_next {i : Item} {item : Parser i.Tree} (h : Reads (.item i) item (Within n)) {token : Token}
    {line : Nat} {items items' : List i.Tree} (hs : lineIf .comma token = some line) :
    ItemLoop i n items (token :: stream) items' rest reports ↔
      ∃ items'' between before behind, (limitedItem item items).Gives endLine stream items'' between before ∧
        ItemLoop i n items'' between items' rest behind ∧ before ++ behind = reports := by
  obtain ⟨hk, -⟩ := lineIf_eq_some.mp hs
  constructor
  · rintro ⟨_, rfl, d, hd, hsp, rfl⟩
    have ht := hsp.tokens
    cases d with
    | lastItem =>
      have he := hsp.ends
      rw [show rest = token :: stream from ht, ends_cons, hk] at he
      exact absurd (List.mem_cons_self ..) he
    | item comma next more =>
      simp only [Derivation.tokens, List.cons_append, List.append_assoc, List.cons.injEq] at ht
      obtain ⟨rfl, rfl⟩ := ht
      refine ⟨items ++ [next.tree], more.tokens ++ rest, overflow items.length next ++ next.reports, more.reports,
        (gives_limitedItem h).mpr ⟨next, (Nat.max_le.mp hd).1, ?_, rfl, rfl⟩,
        ⟨items.length + 1, by simp, more, (Nat.max_le.mp hd).2, ⟨rfl, hsp.ends, rfl, rfl⟩, ?_⟩, hsp.reports⟩
      · exact ⟨rfl, more.ends_item hsp.ends, rfl, rfl⟩
      · exact (List.append_cons _ _ _).symm
  · rintro ⟨_, between, before, behind, hi, ⟨_, hb, more, hm, hsp, rfl⟩, rfl⟩
    obtain ⟨next, hd, hsn, rfl, rfl⟩ := (gives_limitedItem h).mp hi
    obtain rfl := hb.trans List.length_append
    refine ⟨items.length, rfl, .item ⟨token, hk⟩ next more, Nat.max_le.mpr ⟨hd, hm⟩, ⟨?_, hsp.ends, rfl, ?_⟩, ?_⟩
    · rw [Derivation.tokens, List.cons_append, List.cons_append, List.append_assoc, hsp.tokens, hsn.tokens]
    · rw [Derivation.reports, hsp.reports]
      rfl
    · exact List.append_cons _ _ _

theorem gives_limitedItems {i : Item} {item : Parser i.Tree} (h : Reads (.item i) item (Within n))
    {items : List i.Tree} :
    (limitedItems item).Gives endLine stream items rest reports ↔
      ∃ (first : Derivation (.item i)) (more : Derivation (.moreItems i 1)), Within n (.items first more) ∧
        (Derivation.items first more).tokens ++ rest = stream ∧ Ends (Symbol.moreItems i 1).continuedBy rest ∧
        (Derivation.items first more).tree = items ∧ (Derivation.items first more).reports = reports := by
  have loop : ∀ {items' stream rest reports}, Ends i.continuedBy stream →
      ((iterate (lineIf .comma) (fun _ => limitedItem item) items').Gives endLine stream items rest reports ↔
        ItemLoop i n items' stream items rest reports) :=
    fun he => gives_iterate_iff (Ends i.continuedBy) (ItemLoop i n)
      (fun hr => by obtain ⟨_, _, hs, _⟩ := (gives_limitedItem h).mp hr; exact hs.ends) itemLoop_stop
      (itemLoop_next h) he
  unfold limitedItems
  rw [gives_bind]
  constructor
  · rintro ⟨_, between, before, behind, hf, hl, rfl⟩
    obtain ⟨first, hd, hs, rfl, rfl⟩ := (gives_limitedItem h).mp hf
    obtain ⟨_, rfl, more, hm, hsm, rfl⟩ := (loop hs.ends).mp hl
    refine ⟨first, more, Nat.max_le.mpr ⟨hd, hm⟩, ?_, hsm.ends, rfl, ?_⟩
    · rw [Derivation.tokens, List.append_assoc, hsm.tokens, hs.tokens]
    · rw [Derivation.reports, hsm.reports]
      rfl
  · rintro ⟨first, more, hd, rfl, he, rfl, rfl⟩
    have hf := more.ends_item he
    refine ⟨[first.tree], more.tokens ++ rest, first.reports, more.reports,
      (gives_limitedItem h).mpr ⟨first, (Nat.max_le.mp hd).1, ?_, rfl, rfl⟩,
      (loop hf).mpr ⟨1, rfl, more, (Nat.max_le.mp hd).2, ⟨rfl, he, rfl, rfl⟩, rfl⟩, rfl⟩
    exact ⟨by rw [Derivation.tokens, List.append_assoc], hf, rfl, rfl⟩

/-- A closing parenthesis begins no item. -/
theorem head_item {i : Item} (d : Derivation (.item i)) (rest : List Token) :
    (d.tokens ++ rest).head?.any (·.kind == .rightParen) = false := by
  obtain ⟨token, more, ht, hk⟩ := d.exists_head rfl
  rw [ht, List.cons_append, List.head?_cons, Option.any_some, beq_eq_false_iff_ne]
  intro hp
  rw [hp] at hk
  revert hk
  cases i <;> decide

/-- A list up to its closing parenthesis. -/
theorem gives_listUntil {i : Item} {item : Parser i.Tree} (h : Reads (.item i) item (Within n)) {expected : String}
    {list : List i.Tree × Token} :
    (listUntil item .rightParen expected).Gives endLine stream list rest reports ↔
      list.2.kind = .rightParen ∧
        ∃ d : Derivation (.items i), Within n d ∧ d.Spells stream list.1 (list.2 :: rest) reports := by
  obtain ⟨items, closing⟩ := list
  have tail : ∀ {items'} {stream rest reports}, (do let token ← expect .rightParen expected; return (items', token) :
      Parser (List i.Tree × Token)).Gives endLine stream (items, closing) rest reports ↔
      items' = items ∧ stream = closing :: rest ∧ closing.kind = .rightParen ∧ [] = reports := by
    intro items' stream rest reports
    rw [gives_expect_bind]
    constructor
    · rintro ⟨token, between, rfl, hk, hp⟩
      obtain ⟨hi, rfl, rfl⟩ := gives_pure.mp hp
      obtain ⟨rfl, rfl⟩ := Prod.mk.inj hi
      exact ⟨rfl, rfl, hk, rfl⟩
    · rintro ⟨rfl, rfl, hk, rfl⟩
      exact ⟨closing, rest, rfl, hk, gives_pure.mpr ⟨rfl, rfl, rfl⟩⟩
  unfold listUntil
  rw [gives_peek?_bind]
  constructor
  · intro hr
    split at hr <;> obtain ⟨items', between, before, behind, hi, ht, rfl⟩ := gives_bind.mp hr <;>
      obtain ⟨rfl, rfl, hk, rfl⟩ := tail.mp ht
    · obtain ⟨rfl, rfl, rfl⟩ := gives_pure.mp hi
      exact ⟨hk, .noItems, Nat.zero_le n, rfl, by rw [ends_cons, hk]; cases i <;> decide, rfl, rfl⟩
    · obtain ⟨first, more, hd, htok, he, htree, hrep⟩ := (gives_limitedItems h).mp hi
      exact ⟨hk, .items first more, hd, htok, by rw [ends_cons, hk]; cases i <;> decide, htree,
        by rw [hrep, List.append_nil]⟩
  · rintro ⟨hk, d, hd, hs⟩
    have ht := hs.tokens
    have htree := hs.tree
    have hrep := hs.reports
    cases d with
    | noItems =>
      rw [if_pos (by rw [← ht]; exact beq_iff_eq.mpr hk)]
      exact gives_bind.mpr ⟨[], stream, [], [], gives_pure.mpr ⟨rfl, rfl, rfl⟩,
        tail.mpr ⟨htree, ht.symm, hk, rfl⟩, hrep⟩
    | items first more =>
      rw [if_neg (by rw [← ht, Derivation.tokens, List.append_assoc, head_item]; exact Bool.false_ne_true)]
      exact gives_bind.mpr ⟨items, closing :: rest, reports, [],
        (gives_limitedItems h).mpr ⟨first, more, hd, ht, Derivation.ends_items hs.ends, htree, hrep⟩,
        tail.mpr ⟨rfl, rfl, hk, rfl⟩, List.append_nil _⟩

end SetScript.Grammar
