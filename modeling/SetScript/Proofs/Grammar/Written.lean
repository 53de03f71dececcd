import SetScript.Proofs.Grammar.Printed
import SetScript.Proofs.Scan.Written
/-!
# Trees as text

The text of a tree is written word by word in the tokens of its derivation, and no two words join
(`Derivation.written_printed`).
-/

namespace SetScript

/-! ## Words -/

theorem BinaryOp.spelling_of_ofKind? {kind : Kind} {op : BinaryOp} (h : ofKind? kind = some op) :
    kind.spelling? = some op.symbol.toList := by
  cases kind <;> cases h <;> rfl

theorem UnaryOp.spelling_of_ofKind? {kind : Kind} {op : UnaryOp} (h : ofKind? kind = some op) :
    kind.spelling? = some op.symbol.toList := by
  cases kind <;> cases h <;> rfl

namespace Token.Legible

variable {token : Token}

theorem written_spelling (h : token.Legible) {w : String} (hs : token.kind.spelling? = some w.toList) :
    Written token.kind.isApart w [token.printed] := by
  have hn : token.kind ≠ .number := by
    intro hk
    rw [hk] at hs
    cases hs
  have spelled : token.printed.lexeme = w := by
    rw [h.printed_lexeme hn]
    exact String.toList_injective (h.toList_lexeme hs)
  rw [← spelled]
  exact h.written

end Token.Legible

namespace Grammar

theorem TokenOf.written {kind : Kind} (token : TokenOf kind) (h : token.1.Legible) {w : String}
    (hs : kind.spelling? = some w.toList) : Written kind.isApart w [token.1.printed] := by
  obtain ⟨token, rfl⟩ := token
  exact h.written_spelling hs

def Item.text : (item : Item) → item.Tree → String
  | .name, tree => tree.lexeme
  | .expression, tree => tree.text

/-- The text of a tree is written in the tokens. The text of what follows an expression is written behind it. -/
def Symbol.Written : (s : Symbol) → s.Tree → List Token → Prop
  | .declaration, tree, tokens => SetScript.Written (fun _ => true) tree.text tokens
  | .item i, tree, tokens => SetScript.Written isBreak (i.text tree) tokens
  | .phrase _, tree, tokens => SetScript.Written isBreak tree.text tokens
  | .operands _, grow, tokens | .calls, grow, tokens =>
    ∀ (e : Expr) (before : List Token), SetScript.Written isBreak e.text before →
      SetScript.Written isBreak (grow e).text (before ++ tokens)
  | .items i, trees, tokens => SetScript.Written isBreak (commaSeparated (trees.map i.text)) tokens
  | .moreItems i _, trees, tokens =>
    ∀ (first : String) (before : List Token), SetScript.Written isBreak first before →
      SetScript.Written isBreak (commaSeparated (first :: trees.map i.text)) (before ++ tokens)
  | .elements, trees, tokens =>
    ∀ (first : String) (before : List Token), SetScript.Written isBreak first before →
      SetScript.Written isBreak (commaSeparated (first :: trees.map Expr.text)) (before ++ tokens)
  | .filter, tree?, tokens => SetScript.Written isBreak (Expr.filterText tree?) tokens

/-- A list goes on behind a comma. -/
theorem written_listed {first next : String} {others : List String} {ts us : List Token} {comma : TokenOf .comma}
    (hf : Written isBreak first ts) (hc : comma.1.Legible) (hn : Written isBreak (commaSeparated (next :: others)) us) :
    Written isBreak (commaSeparated (first :: next :: others)) (ts ++ comma.1.printed :: us) := by
  have sign : Written (fun _ => true) ", " [comma.1.printed] :=
    (TokenOf.written comma hc (w := ",") rfl).append_space rfl
  have := (hf.append_break sign rfl rfl).append_open hn fun _ => rfl
  rw [List.append_assoc] at this
  rwa [commaSeparated, String.intercalate_cons_cons]

theorem texts_eq_map (es : List Expr) : Expr.texts es = es.map Expr.text := by
  induction es with
  | nil => rfl
  | cons e es ih => rw [Expr.texts, ih, List.map_cons]

theorem startsWith_filterText (filter? : Option Expr) {rest : List Char} (h : StartsWith isBreak rest) :
    StartsWith isBreak ((Expr.filterText filter?).toList ++ rest) := by
  cases filter? with
  | none => exact h
  | some e =>
    have front : (Expr.filterText (some e)).toList = ',' :: ' ' :: e.text.toList := by simp [Expr.filterText]
    rw [front]
    exact startsWith_cons rfl _

theorem written_name {token : TokenOf .identifier} (h : token.1.Legible) :
    Written isBreak token.1.lexeme [token.1.printed] := by
  have word : Written token.1.kind.isApart token.1.printed.lexeme [token.1.printed] := h.written
  rw [h.printed_lexeme (by rw [token.2]; decide)] at word
  exact word.mono fun c => token.1.kind.isApart_of_isBreak

/-- What stands between two signs that nothing joins. -/
theorem written_between {left right : Kind} {opening : TokenOf left} {closing : TokenOf right} {inner : String}
    {ts : List Token} {w v : String} {c : Char} {more : List Char} (ho : opening.1.Legible)
    (hc : closing.1.Legible) (hl : left.spelling? = some w.toList) (hr : right.spelling? = some v.toList)
    (hi : Written isBreak inner ts) (openFront : ∀ c, left.isApart c = true) (back : v.toList = c :: more)
    (breaks : isBreak c = true) :
    Written isBreak (w ++ inner ++ v) (opening.1.printed :: ts ++ [closing.1.printed]) := by
  have front := TokenOf.written opening ho hl
  have ending := (TokenOf.written closing hc hr).mono fun c => right.isApart_of_isBreak
  exact (front.append_open hi openFront).append_break ending back breaks

/-! ## Rules -/

variable {a b c : String} {ts us vs : List Token} {sign : TokenOf .equal} {semicolon : TokenOf .semicolon}

theorem written_function {word : TokenOf .defWord} {opening : TokenOf .leftParen} {closing : TokenOf .rightParen}
    (hw : word.1.Legible) (ho : opening.1.Legible) (hc : closing.1.Legible) (hs : sign.1.Legible)
    (he : semicolon.1.Legible) (name : Written isBreak a ts) (parameters : Written isBreak b us)
    (body : Written isBreak c vs) :
    Written (fun _ => true) ("def " ++ a ++ "(" ++ b ++ ") = " ++ c ++ ";")
      (word.1.printed :: ts ++ opening.1.printed :: us ++ closing.1.printed :: sign.1.printed :: vs ++
        [semicolon.1.printed]) := by
  have front : Written (fun _ => true) "def " [word.1.printed] :=
    (TokenOf.written word hw (w := "def") rfl).append_space rfl
  have left := TokenOf.written opening ho (w := "(") rfl
  have middle : Written (fun _ => true) ") = " ([closing.1.printed] ++ [sign.1.printed]) :=
    (TokenOf.written closing hc (w := ")") rfl).append_open
      ((TokenOf.written sign hs (w := "=") rfl).spaced rfl) fun _ => rfl
  have ending := TokenOf.written semicolon he (w := ";") rfl
  have whole := (((((front.append_open name fun _ => rfl).append_break left rfl rfl).append_open parameters
    fun _ => rfl).append_break middle rfl rfl).append_open body fun _ => rfl).append_break ending rfl rfl
  simp only [List.append_assoc, List.singleton_append] at whole
  simp only [List.append_assoc, List.cons_append]
  exact whole.mono fun _ _ => rfl

theorem written_binding {word : TokenOf .letWord} (hw : word.1.Legible) (hs : sign.1.Legible)
    (he : semicolon.1.Legible) (name : Written isBreak a ts) (value : Written isBreak b us) :
    Written (fun _ => true) ("let " ++ a ++ " = " ++ b ++ ";")
      (word.1.printed :: ts ++ sign.1.printed :: us ++ [semicolon.1.printed]) := by
  have front : Written (fun _ => true) "let " [word.1.printed] :=
    (TokenOf.written word hw (w := "let") rfl).append_space rfl
  have middle : Written (fun _ => true) " = " [sign.1.printed] :=
    (TokenOf.written sign hs (w := "=") rfl).spaced rfl
  have ending := TokenOf.written semicolon he (w := ";") rfl
  have whole := (((front.append_open name fun _ => rfl).append_break middle rfl rfl).append_open value
    fun _ => rfl).append_break ending rfl rfl
  simp only [List.append_assoc, List.singleton_append] at whole
  simp only [List.append_assoc, List.cons_append]
  exact whole.mono fun _ _ => rfl

/-- No operand of a prefix operator begins with `=`, so `!` is not joined. -/
theorem written_prefixed {sign first : Token} {op : UnaryOp} (hs : sign.Legible)
    (spells : UnaryOp.ofKind? sign.kind = some op) (hk : first.kind ∈ Phrase.unary.firsts)
    (inner : Written isBreak a (first :: ts)) :
    Written isBreak (op.symbol ++ a) (sign.printed :: first :: ts) := by
  have operator := hs.written_spelling (op.spelling_of_ofKind? spells)
  refine operator.append inner fun rest hr => ?_
  have other : StartsWith (· != '=') (a.toList ++ rest) :=
    inner.startsWith_ne_equal (by rintro he; rw [he] at hk; revert hk; decide)
      (by rintro he; rw [he] at hk; revert hk; decide) hr
  cases hk : sign.kind <;> rw [hk] at spells <;> cases spells
  · exact fun _ _ => rfl
  · exact other

theorem written_comprehension {opening : TokenOf .leftBrace} {bar : TokenOf .pipe} {word : TokenOf .inWord}
    {closing : TokenOf .rightBrace} {filter? : Option Expr} {ws : List Token} (ho : opening.1.Legible)
    (hb : bar.1.Legible) (hw : word.1.Legible) (hc : closing.1.Legible) (result : Written isBreak a ts)
    (bound : Written isBreak b us) (domain : Written isBreak c vs)
    (filter : Written isBreak (Expr.filterText filter?) ws) :
    Written isBreak ("\x7b" ++ a ++ " | " ++ b ++ " in " ++ c ++ Expr.filterText filter? ++ "\x7d")
      (opening.1.printed :: ts ++ bar.1.printed :: us ++ word.1.printed :: vs ++ ws ++ [closing.1.printed]) := by
  have left := TokenOf.written opening ho (w := "\x7b") rfl
  have such : Written (fun _ => true) " | " [bar.1.printed] := (TokenOf.written bar hb (w := "|") rfl).spaced rfl
  have among : Written (fun _ => true) " in " [word.1.printed] :=
    (TokenOf.written word hw (w := "in") rfl).spaced rfl
  have right := (TokenOf.written closing hc (w := "\x7d") rfl).mono fun c => Kind.rightBrace.isApart_of_isBreak
  have inner := ((((result.append_break such rfl rfl).append_open bound fun _ => rfl).append_break among rfl
    rfl).append_open domain fun _ => rfl).append filter fun rest => startsWith_filterText filter?
  have whole := (left.append_open inner fun _ => rfl).append_break right rfl rfl
  simpa [String.append_assoc] using whole

namespace Derivation

variable {s : Symbol}

/-- The text of a tree is written in the tokens of its derivation. -/
theorem written_printed (d : Derivation s) (h : ∀ token ∈ d.tokens, token.Legible) :
    s.Written d.tree d.printed.tokens := by
  induction d with
  | function word name opening parameters closing sign body semicolon ihn ihp ihb =>
    simp only [tokens, List.cons_append, List.append_assoc, List.forall_mem_append, List.forall_mem_cons] at h
    obtain ⟨hw, hn, ho, hp, hc, hs, hb, hsc, -⟩ := h
    exact written_function hw ho hc hs hsc (ihn hn) (ihp hp) (ihb hb)
  | binding word name sign value semicolon ihn ihv =>
    simp only [tokens, List.cons_append, List.append_assoc, List.forall_mem_append, List.forall_mem_cons] at h
    obtain ⟨hw, hn, hs, hv, hsc, -⟩ := h
    exact written_binding hw hs hsc (ihn hn) (ihv hv)
  | printing word value semicolon ih =>
    simp only [tokens, List.cons_append, List.forall_mem_append, List.forall_mem_cons] at h
    obtain ⟨hw, hv, hsc, -⟩ := h
    have front : Written (fun _ => true) "print " [word.1.printed] :=
      (TokenOf.written word hw (w := "print") rfl).append_space rfl
    have inner : Written isBreak value.tree.text value.printed.tokens := ih hv
    have ending := TokenOf.written semicolon hsc (w := ";") rfl
    exact ((front.append_open inner fun _ => rfl).append_break ending rfl rfl).mono fun _ _ => rfl
  | statement value semicolon ih =>
    simp only [tokens, List.forall_mem_append, List.forall_mem_cons] at h
    have inner : Written isBreak value.tree.text value.printed.tokens := ih h.1
    have ending := TokenOf.written semicolon h.2.1 (w := ";") rfl
    exact (inner.append_break ending rfl rfl).mono fun _ _ => rfl
  | named name => exact written_name (h name.1 (List.mem_singleton_self _))
  | reference name => exact written_name (h name.1 (List.mem_singleton_self _))
  | assign target sign value iht ihv =>
    simp only [tokens, List.forall_mem_append, List.forall_mem_cons] at h
    have left : Written isBreak target.tree.text target.printed.tokens := iht h.1
    have right : Written isBreak value.tree.text value.printed.tokens := ihv h.2.2
    have op := TokenOf.written sign h.2.1 (w := "=") rfl
    simp only [Symbol.Written, tree, printed]
    cases ht : target.tree with
    | «variable» name =>
      rw [ht] at left
      exact left.between op rfl right
    | _ =>
      rw [ht] at left
      exact left
  | plain e ih => exact ih h
  | chain first rest ihf ihr | call first rest ihf ihr =>
    simp only [tokens, List.forall_mem_append] at h
    exact ihr h.2 first.tree first.printed.tokens (ihf h.1)
  | noOperand | noCall =>
    intro e before he
    rwa [printed, tokens, List.append_nil]
  | operand sign op spells inLayer right rest ihe ihr =>
    simp only [tokens, List.cons_append, List.forall_mem_append, List.forall_mem_cons] at h
    obtain ⟨hs, hr, hm⟩ := h
    intro e before he
    have operator := hs.written_spelling (op.spelling_of_ofKind? spells)
    have both := he.between operator (sign.kind.isApart_of_isBreak rfl) (ihe hr)
    rw [← String.append_assoc, ← String.append_assoc] at both
    have := ihr hm (.binary op sign e right.tree) _ both
    rwa [List.append_assoc] at this
  | prefixed sign op spells e ih =>
    simp only [tokens, List.forall_mem_cons] at h
    obtain ⟨token, more, ht, hk⟩ := e.printed.exists_head rfl
    have inner : Written isBreak e.tree.text e.printed.tokens := ih h.2
    rw [ht] at inner
    simp only [Symbol.Written, tree, Expr.text, printed, tokens, ht]
    exact written_prefixed h.1 spells hk inner
  | bare e ih => exact ih h
  | apply opening arguments closing rest iha ihr =>
    simp only [tokens, List.cons_append, List.forall_mem_append, List.forall_mem_cons] at h
    obtain ⟨ho, ha, hc, hr⟩ := h
    intro callee before he
    have left := TokenOf.written opening ho (w := "(") rfl
    have list : Written isBreak (commaSeparated (arguments.tree.map Expr.text)) arguments.printed.tokens := iha ha
    have right := (TokenOf.written closing hc (w := ")") rfl).mono fun c => Kind.rightParen.isApart_of_isBreak
    have both := ((he.append_break left rfl rfl).append_open list fun _ => rfl).append_break right rfl rfl
    have step := ihr hr (.call closing.1 callee arguments.tree) _ (by rwa [Expr.text, texts_eq_map])
    simpa using step
  | noItems => exact written_empty
  | items first rest ihf ihr =>
    simp only [tokens, List.forall_mem_append] at h
    exact ihr h.2 _ _ (ihf h.1)
  | lastItem | lastElement =>
    intro first before hf
    rwa [printed, tokens, List.append_nil]
  | @item i _ comma next rest ihn ihr =>
    simp only [tokens, List.cons_append, List.forall_mem_append, List.forall_mem_cons] at h
    intro first before hf
    have others := ihr h.2.2 (i.text next.tree) next.printed.tokens (ihn h.2.1)
    exact written_listed hf h.1 others
  | literal token value isLiteral stands =>
    have legible := h token (List.mem_singleton_self _)
    have text : value.text = token.printed.lexeme := by simp [Token.printed, stands]
    have word : Written isBreak value.text [token.printed] := by
      rw [text]
      exact legible.written.mono fun c => token.kind.isApart_of_isBreak
    exact word
  | group opening e closing ih =>
    simp only [tokens, List.cons_append, List.forall_mem_append, List.forall_mem_cons] at h
    exact written_between h.1 h.2.2.1 (w := "(") (v := ")") rfl rfl (ih h.2.1) (fun _ => rfl) rfl rfl
  | cardinality opening e closing ih =>
    simp only [tokens, List.cons_append, List.forall_mem_append, List.forall_mem_cons] at h
    exact written_between h.1 h.2.2.1 (w := "|") (v := "|") rfl rfl (ih h.2.1) (fun _ => rfl) rfl rfl
  | emptyRoster opening closing =>
    simp only [tokens, List.forall_mem_cons] at h
    exact written_between h.1 h.2.1 (w := "\x7b") (v := "\x7d") rfl rfl written_empty (fun _ => rfl) rfl rfl
  | roster opening first rest closing ihf ihr =>
    simp only [tokens, List.cons_append, List.append_assoc, List.forall_mem_append, List.forall_mem_cons] at h
    have list : Written isBreak (commaSeparated (Expr.text first.tree :: rest.tree.map Expr.text))
      (first.printed.tokens ++ rest.printed.tokens) := ihr h.2.2.1 _ _ (ihf h.2.1)
    have whole := written_between h.1 h.2.2.2.1 (w := "\x7b") (v := "\x7d") rfl rfl list (fun _ => rfl) rfl rfl
    rw [Symbol.Written, tree, Expr.text, texts_eq_map]
    simpa using whole
  | comprehension opening result bar bound word domain filter closing ihr ihb ihd ihf =>
    simp only [tokens, List.cons_append, List.append_assoc, List.forall_mem_append, List.forall_mem_cons] at h
    obtain ⟨ho, hr, hb, hx, hw, hd, hf, hc, -⟩ := h
    rw [Symbol.Written, tree, Expr.text]
    exact written_comprehension ho hb hw hc (ihr hr) (ihb hx) (ihd hd) (ihf hf)
  | element comma e rest ihe ihr =>
    simp only [tokens, List.cons_append, List.forall_mem_append, List.forall_mem_cons] at h
    intro first before hf
    have others := ihr h.2.2 e.tree.text e.printed.tokens (ihe h.2.1)
    exact written_listed hf h.1 others
  | noFilter => exact written_empty
  | filtered comma e ih =>
    simp only [tokens, List.forall_mem_cons] at h
    have inner : Written isBreak e.tree.text e.printed.tokens := ih h.2
    have sign : Written (fun _ => true) ", " [comma.1.printed] :=
      (TokenOf.written comma h.1 (w := ",") rfl).append_space rfl
    exact sign.append_open inner fun _ => rfl

end Derivation

end Grammar

end SetScript
