import SetScript.Proofs.Grammar.Firsts
/-!
# Every text has at most one derivation

One token of lookahead decides every rule, so two derivations of one symbol, each in front of a stream that does not
continue it, are equal when their texts are (`Derivation.unique`).
-/

namespace SetScript.Grammar

namespace Derivation

/-- No other derivation of the symbol stands at the beginning of the same stream, where neither stream behind
continues the symbol. -/
def Alone {s : Symbol} (d : Derivation s) : Prop :=
  ∀ (d' : Derivation s) (rest rest' : List Token), d.tokens ++ rest = d'.tokens ++ rest' →
    Ends s.continuedBy rest → Ends s.continuedBy rest' → d = d' ∧ rest = rest'

/-! ### Declarations -/

/-- What begins a text that an expression stands at the front of. -/
theorem head_firsts {e : Derivation .expression} {token : Token} {rest tokens : List Token}
    (h : e.tokens ++ rest = token :: tokens) : token.kind ∈ Item.expression.firsts := by
  obtain ⟨first, more, ht, hk⟩ := e.exists_head rfl
  rw [ht] at h
  obtain ⟨rfl, -⟩ := List.cons.inj h
  exact hk

/-- A word that begins one of the other declarations does not begin an expression statement. -/
theorem not_statement {d d' : Derivation .declaration} {value : Derivation .expression}
    {semicolon : TokenOf .semicolon} {rest rest' : List Token} (h : d.tokens ++ rest = d'.tokens ++ rest')
    (hd : d' = statement value semicolon) {kind : Kind} (hw : (d.tokens ++ rest).head?.map (·.kind) = some kind)
    (hk : kind ∉ Item.expression.firsts) : False := by
  obtain ⟨token, more, ht, hv⟩ := value.exists_head rfl
  rw [h, hd, tokens, ht] at hw
  exact hk (Option.some.inj hw ▸ hv)

theorem alone_function {word : TokenOf .defWord} {name : Derivation .name} {opening : TokenOf .leftParen}
    {parameters : Derivation (.items .name)} {closing : TokenOf .rightParen} {sign : TokenOf .equal}
    {body : Derivation .expression} {semicolon : TokenOf .semicolon} (hname : name.Alone)
    (hparameters : parameters.Alone) (hbody : body.Alone) :
    (function word name opening parameters closing sign body semicolon).Alone := by
  intro d' rest rest' h _ _
  cases d' with
  | function word' name' opening' parameters' closing' sign' body' semicolon' =>
    simp only [tokens, List.cons_append, List.append_assoc, List.nil_append, List.cons.injEq] at h
    obtain ⟨hw, h⟩ := h
    obtain ⟨rfl, hn⟩ := hname name' _ _ h (ends_none _) (ends_none _)
    obtain ⟨ho, hn⟩ := List.cons.inj hn
    obtain ⟨rfl, hp⟩ := hparameters parameters' _ _ hn (ends_tokenOf closing (by decide) _)
      (ends_tokenOf closing' (by decide) _)
    simp only [List.cons.injEq] at hp
    obtain ⟨hc, hs, hp⟩ := hp
    obtain ⟨rfl, hb⟩ := hbody body' _ _ hp (ends_tokenOf semicolon (by decide) _)
      (ends_tokenOf semicolon' (by decide) _)
    obtain ⟨hl, rfl⟩ := List.cons.inj hb
    rw [Subtype.ext hw, Subtype.ext ho, Subtype.ext hc, Subtype.ext hs, Subtype.ext hl]
    exact ⟨rfl, rfl⟩
  | statement => exact (not_statement h rfl (congrArg some word.2) (by decide)).elim
  | _ => exact absurd (head_kind_eq h) (by simp)

theorem alone_binding {word : TokenOf .letWord} {name : Derivation .name} {sign : TokenOf .equal}
    {value : Derivation .expression} {semicolon : TokenOf .semicolon} (hname : name.Alone) (hvalue : value.Alone) :
    (binding word name sign value semicolon).Alone := by
  intro d' rest rest' h _ _
  cases d' with
  | binding word' name' sign' value' semicolon' =>
    simp only [tokens, List.cons_append, List.append_assoc, List.nil_append, List.cons.injEq] at h
    obtain ⟨hw, h⟩ := h
    obtain ⟨rfl, hn⟩ := hname name' _ _ h (ends_none _) (ends_none _)
    obtain ⟨hs, hn⟩ := List.cons.inj hn
    obtain ⟨rfl, hv⟩ := hvalue value' _ _ hn (ends_tokenOf semicolon (by decide) _)
      (ends_tokenOf semicolon' (by decide) _)
    obtain ⟨hl, rfl⟩ := List.cons.inj hv
    rw [Subtype.ext hw, Subtype.ext hs, Subtype.ext hl]
    exact ⟨rfl, rfl⟩
  | statement => exact (not_statement h rfl (congrArg some word.2) (by decide)).elim
  | _ => exact absurd (head_kind_eq h) (by simp)

theorem alone_printing {word : TokenOf .printWord} {value : Derivation .expression}
    {semicolon : TokenOf .semicolon} (hvalue : value.Alone) : (printing word value semicolon).Alone := by
  intro d' rest rest' h _ _
  cases d' with
  | printing word' value' semicolon' =>
    simp only [tokens, List.cons_append, List.append_assoc, List.nil_append, List.cons.injEq] at h
    obtain ⟨hw, h⟩ := h
    obtain ⟨rfl, hv⟩ := hvalue value' _ _ h (ends_tokenOf semicolon (by decide) _)
      (ends_tokenOf semicolon' (by decide) _)
    obtain ⟨hl, rfl⟩ := List.cons.inj hv
    rw [Subtype.ext hw, Subtype.ext hl]
    exact ⟨rfl, rfl⟩
  | statement => exact (not_statement h rfl (congrArg some word.2) (by decide)).elim
  | _ => exact absurd (head_kind_eq h) (by simp)

theorem alone_statement {value : Derivation .expression} {semicolon : TokenOf .semicolon} (hvalue : value.Alone) :
    (statement value semicolon).Alone := by
  intro d' rest rest' h _ _
  cases d' with
  | statement value' semicolon' =>
    simp only [tokens, List.append_assoc, List.cons_append, List.nil_append] at h
    obtain ⟨rfl, hv⟩ := hvalue value' _ _ h (ends_tokenOf semicolon (by decide) _)
      (ends_tokenOf semicolon' (by decide) _)
    obtain ⟨hl, rfl⟩ := List.cons.inj hv
    rw [Subtype.ext hl]
    exact ⟨rfl, rfl⟩
  | function word | binding word | printing word =>
    exact (not_statement h.symm rfl (congrArg some word.2) (by decide)).elim

/-! ### Expressions -/

theorem alone_named (token : TokenOf .identifier) : (named token).Alone := by
  intro d' rest rest' h _ _
  cases d' with
  | named token' =>
    obtain ⟨ht, rfl⟩ := List.cons.inj h
    rw [Subtype.ext ht]
    exact ⟨rfl, rfl⟩

theorem alone_assign {target : Derivation (.phrase (.layer .equality))} {sign : TokenOf .equal}
    {value : Derivation .expression} (htarget : target.Alone) (hvalue : value.Alone) :
    (assign target sign value).Alone := by
  intro d' rest rest' h he he'
  cases d' with
  | assign target' sign' value' =>
    simp only [tokens, List.append_assoc, List.cons_append] at h
    obtain ⟨rfl, ht⟩ := htarget target' _ _ h (ends_sign _ _) (ends_sign _ _)
    obtain ⟨hs, ht⟩ := List.cons.inj ht
    obtain ⟨rfl, rfl⟩ := hvalue value' _ _ ht he he'
    rw [Subtype.ext hs]
    exact ⟨rfl, rfl⟩
  | plain e =>
    simp only [tokens, List.append_assoc, List.cons_append] at h
    -- The target stands alone, so `e` ends where it does: in front of the `=`, which continues an expression.
    obtain ⟨-, rfl⟩ := htarget e _ _ h (ends_sign _ _) (ends_target he')
    exact absurd he' (by simp [ends_cons, Symbol.continuedBy, Item.continuedBy])

theorem alone_plain {e : Derivation (.phrase (.layer .equality))} (hexpr : e.Alone) : (plain e).Alone := by
  intro d' rest rest' h he he'
  cases d' with
  | plain e' =>
    obtain ⟨rfl, rfl⟩ := hexpr e' _ _ h (ends_target he) (ends_target he')
    exact ⟨rfl, rfl⟩
  | assign target sign value =>
    simp only [tokens, List.append_assoc, List.cons_append] at h
    obtain ⟨-, rfl⟩ := hexpr target _ _ h (ends_target he) (ends_sign _ _)
    exact absurd he (by simp [ends_cons, Symbol.continuedBy, Item.continuedBy])

theorem alone_chain {l : Layer} {first : Derivation (.phrase l.operand)} {rest : Derivation (.operands l)}
    (hfirst : first.Alone) (hrest : rest.Alone) : (chain first rest).Alone := by
  intro d' more more' h he he'
  cases d' with
  | chain first' rest' =>
    simp only [tokens, List.append_assoc] at h
    obtain ⟨rfl, hf⟩ := hfirst first' _ _ h (rest.ends_operand he) (rest'.ends_operand he')
    obtain ⟨rfl, rfl⟩ := hrest rest' _ _ hf he he'
    exact ⟨rfl, rfl⟩

theorem alone_operand {l : Layer} {sign : Token} {op : BinaryOp} {spells : BinaryOp.ofKind? sign.kind = some op}
    {inLayer : op ∈ l.ops} {right : Derivation (.phrase l.operand)} {rest : Derivation (.operands l)}
    (hright : right.Alone) (hrest : rest.Alone) : (operand sign op spells inLayer right rest).Alone := by
  intro d' more more' h he he'
  cases d' with
  | noOperand => exact absurd (tokens_eq_nil h he' rfl) (List.cons_ne_nil _ _)
  | operand sign' op' spells' inLayer' right' rest' =>
    simp only [tokens, List.cons_append, List.append_assoc] at h
    obtain ⟨rfl, ht⟩ := List.cons.inj h
    obtain ⟨rfl, hr⟩ := hright right' _ _ ht (rest.ends_operand he) (rest'.ends_operand he')
    obtain ⟨rfl, rfl⟩ := hrest rest' _ _ hr he he'
    obtain rfl : op = op' := Option.some.inj (spells.symm.trans spells')
    exact ⟨rfl, rfl⟩

theorem alone_noOperand {l : Layer} : (noOperand : Derivation (.operands l)).Alone := by
  intro d' more more' h he he'
  cases d' with
  | noOperand => exact ⟨rfl, h⟩
  | operand => exact absurd (tokens_eq_nil h.symm he rfl) (List.cons_ne_nil _ _)

theorem alone_prefixed {sign : Token} {op : UnaryOp} {spells : UnaryOp.ofKind? sign.kind = some op}
    {e : Derivation (.phrase .unary)} (hexpr : e.Alone) : (prefixed sign op spells e).Alone := by
  intro d' rest rest' h he he'
  cases d' with
  | prefixed sign' op' spells' e' =>
    simp only [tokens, List.cons_append] at h
    obtain ⟨rfl, ht⟩ := List.cons.inj h
    obtain ⟨rfl, rfl⟩ := hexpr e' _ _ ht he he'
    obtain rfl : op = op' := Option.some.inj (spells.symm.trans spells')
    exact ⟨rfl, rfl⟩
  | bare e' =>
    obtain ⟨token, more, ht, hk⟩ := e'.exists_head rfl
    simp only [tokens, ht, List.cons_append, List.cons.injEq] at h
    obtain ⟨rfl, -⟩ := h
    exact absurd hk (UnaryOp.not_mem_firsts spells)

theorem alone_bare {e : Derivation (.phrase .call)} (hexpr : e.Alone) : (bare e).Alone := by
  intro d' rest rest' h he he'
  cases d' with
  | bare e' =>
    obtain ⟨rfl, rfl⟩ := hexpr e' _ _ h he he'
    exact ⟨rfl, rfl⟩
  | prefixed sign op spells =>
    obtain ⟨token, more, ht, hk⟩ := e.exists_head rfl
    simp only [tokens, ht, List.cons_append, List.cons.injEq] at h
    obtain ⟨rfl, -⟩ := h
    exact absurd hk (UnaryOp.not_mem_firsts spells)

theorem alone_call {callee : Derivation (.phrase .primary)} {rest : Derivation .calls} (hcallee : callee.Alone)
    (hrest : rest.Alone) : (call callee rest).Alone := by
  intro d' more more' h he he'
  cases d' with
  | call callee' rest' =>
    simp only [tokens, List.append_assoc] at h
    obtain ⟨rfl, hc⟩ := hcallee callee' _ _ h (ends_none _) (ends_none _)
    obtain ⟨rfl, rfl⟩ := hrest rest' _ _ hc he he'
    exact ⟨rfl, rfl⟩

theorem alone_noCall : noCall.Alone := by
  intro d' more more' h he he'
  cases d' with
  | noCall => exact ⟨rfl, h⟩
  | apply => exact absurd (tokens_eq_nil h.symm he rfl) (List.cons_ne_nil _ _)

theorem alone_apply {opening : TokenOf .leftParen} {arguments : Derivation (.items .expression)}
    {closing : TokenOf .rightParen} {rest : Derivation .calls} (harguments : arguments.Alone) (hrest : rest.Alone) :
    (apply opening arguments closing rest).Alone := by
  intro d' more more' h he he'
  cases d' with
  | noCall => exact absurd (tokens_eq_nil h he' rfl) (List.cons_ne_nil _ _)
  | apply opening' arguments' closing' rest' =>
    simp only [tokens, List.cons_append, List.append_assoc] at h
    obtain ⟨ho, h⟩ := List.cons.inj h
    obtain ⟨rfl, ha⟩ := harguments arguments' _ _ h (ends_tokenOf closing (by decide) _)
      (ends_tokenOf closing' (by decide) _)
    obtain ⟨hc, ha⟩ := List.cons.inj ha
    obtain ⟨rfl, rfl⟩ := hrest rest' _ _ ha he he'
    rw [Subtype.ext ho, Subtype.ext hc]
    exact ⟨rfl, rfl⟩

/-! ### Lists -/

theorem alone_noItems {i : Item} : (noItems : Derivation (.items i)).Alone := by
  intro d' more more' h he he'
  cases d' with
  | noItems => exact ⟨rfl, h⟩
  | items first rest =>
    obtain ⟨token, tokens, ht, -⟩ := first.exists_head rfl
    exact absurd (tokens_eq_nil h.symm he rfl) (by simp [Derivation.tokens, ht])

theorem alone_items {i : Item} {first : Derivation (.item i)} {rest : Derivation (.moreItems i 1)}
    (hfirst : first.Alone) (hrest : rest.Alone) : (items first rest).Alone := by
  intro d' more more' h he he'
  cases d' with
  | noItems =>
    obtain ⟨token, tokens, ht, -⟩ := first.exists_head rfl
    exact absurd (tokens_eq_nil h he' rfl) (by simp [Derivation.tokens, ht])
  | items first' rest' =>
    simp only [tokens, List.append_assoc] at h
    obtain ⟨rfl, hf⟩ := hfirst first' _ _ h (rest.ends_item (ends_items he)) (rest'.ends_item (ends_items he'))
    obtain ⟨rfl, rfl⟩ := hrest rest' _ _ hf (ends_items he) (ends_items he')
    exact ⟨rfl, rfl⟩

theorem alone_lastItem {i : Item} {before : Nat} : (lastItem : Derivation (.moreItems i before)).Alone := by
  intro d' more more' h he he'
  cases d' with
  | lastItem => exact ⟨rfl, h⟩
  | item => exact absurd (tokens_eq_nil h.symm he rfl) (List.cons_ne_nil _ _)

theorem alone_item {i : Item} {before : Nat} {comma : TokenOf .comma} {next : Derivation (.item i)}
    {rest : Derivation (.moreItems i (before + 1))} (hnext : next.Alone) (hrest : rest.Alone) :
    (item comma next rest).Alone := by
  intro d' more more' h he he'
  cases d' with
  | lastItem => exact absurd (tokens_eq_nil h he' rfl) (List.cons_ne_nil _ _)
  | item comma' next' rest' =>
    simp only [tokens, List.cons_append, List.append_assoc] at h
    obtain ⟨hc, ht⟩ := List.cons.inj h
    obtain ⟨rfl, hn⟩ := hnext next' _ _ ht (rest.ends_item he) (rest'.ends_item he')
    obtain ⟨rfl, rfl⟩ := hrest rest' _ _ hn he he'
    rw [Subtype.ext hc]
    exact ⟨rfl, rfl⟩

theorem alone_lastElement : lastElement.Alone := by
  intro d' more more' h he he'
  cases d' with
  | lastElement => exact ⟨rfl, h⟩
  | element => exact absurd (tokens_eq_nil h.symm he rfl) (List.cons_ne_nil _ _)

theorem alone_element {comma : TokenOf .comma} {e : Derivation .expression} {rest : Derivation .elements}
    (hexpr : e.Alone) (hrest : rest.Alone) : (element comma e rest).Alone := by
  intro d' more more' h he he'
  cases d' with
  | lastElement => exact absurd (tokens_eq_nil h he' rfl) (List.cons_ne_nil _ _)
  | element comma' e' rest' =>
    simp only [tokens, List.cons_append, List.append_assoc] at h
    obtain ⟨hc, ht⟩ := List.cons.inj h
    obtain ⟨rfl, hn⟩ := hexpr e' _ _ ht (rest.ends_element he) (rest'.ends_element he')
    obtain ⟨rfl, rfl⟩ := hrest rest' _ _ hn he he'
    rw [Subtype.ext hc]
    exact ⟨rfl, rfl⟩

theorem alone_noFilter : noFilter.Alone := by
  intro d' more more' h he he'
  cases d' with
  | noFilter => exact ⟨rfl, h⟩
  | filtered => exact absurd (tokens_eq_nil h.symm he rfl) (List.cons_ne_nil _ _)

theorem alone_filtered {comma : TokenOf .comma} {e : Derivation .expression} (hexpr : e.Alone) :
    (filtered comma e).Alone := by
  intro d' more more' h he he'
  cases d' with
  | noFilter => exact absurd (tokens_eq_nil h he' rfl) (List.cons_ne_nil _ _)
  | filtered comma' e' =>
    simp only [tokens, List.cons_append] at h
    obtain ⟨hc, ht⟩ := List.cons.inj h
    obtain ⟨rfl, rfl⟩ := hexpr e' _ _ ht (he.mono (List.subset_cons_self _ _)) (he'.mono (List.subset_cons_self _ _))
    rw [Subtype.ext hc]
    exact ⟨rfl, rfl⟩

/-! ### Primary expressions -/

/-- What begins with another kind of token is no literal. -/
theorem not_literal {d : Derivation (.phrase .primary)} {token : Token} {value : Literal}
    {hl : isLiteral token.kind = true} {stands : token.literal? = some value} {rest rest' : List Token}
    (h : d.tokens ++ rest = (literal token value hl stands).tokens ++ rest') {kind : Kind}
    (hd : (d.tokens ++ rest).head?.map (·.kind) = some kind) (hk : isLiteral kind = false) : False := by
  rw [h] at hd
  obtain rfl : token.kind = kind := Option.some.inj hd
  exact absurd hl (by simp [hk])

theorem alone_literal {token : Token} {value : Literal} {hl : isLiteral token.kind = true}
    {stands : token.literal? = some value} : (literal token value hl stands).Alone := by
  intro d' rest rest' h _ _
  cases d' with
  | literal token' value' hl' stands' =>
    obtain ⟨rfl, rfl⟩ := List.cons.inj h
    obtain rfl : value = value' := Option.some.inj (stands.symm.trans stands')
    exact ⟨rfl, rfl⟩
  | reference name => exact (not_literal h.symm (congrArg some name.2) rfl).elim
  | group opening | cardinality opening | emptyRoster opening | roster opening | comprehension opening =>
    exact (not_literal h.symm (congrArg some opening.2) rfl).elim

theorem alone_reference (name : TokenOf .identifier) : (reference name).Alone := by
  intro d' rest rest' h _ _
  have hk := head_kind_eq h
  cases d' with
  | reference name' =>
    obtain ⟨hn, rfl⟩ := List.cons.inj h
    rw [Subtype.ext hn]
    exact ⟨rfl, rfl⟩
  | literal => exact (not_literal h (congrArg some name.2) rfl).elim
  | _ => exact absurd hk (by simp)

theorem alone_group {opening : TokenOf .leftParen} {e : Derivation .expression} {closing : TokenOf .rightParen}
    (hexpr : e.Alone) : (group opening e closing).Alone := by
  intro d' rest rest' h _ _
  have hk := head_kind_eq h
  cases d' with
  | group opening' e' closing' =>
    simp only [tokens, List.cons_append, List.append_assoc, List.nil_append] at h
    obtain ⟨ho, h⟩ := List.cons.inj h
    obtain ⟨rfl, he⟩ := hexpr e' _ _ h (ends_tokenOf closing (by decide) _) (ends_tokenOf closing' (by decide) _)
    obtain ⟨hc, rfl⟩ := List.cons.inj he
    rw [Subtype.ext ho, Subtype.ext hc]
    exact ⟨rfl, rfl⟩
  | literal => exact (not_literal h (congrArg some opening.2) rfl).elim
  | _ => exact absurd hk (by simp)

theorem alone_cardinality {opening : TokenOf .pipe} {e : Derivation .expression} {closing : TokenOf .pipe}
    (hexpr : e.Alone) : (cardinality opening e closing).Alone := by
  intro d' rest rest' h _ _
  have hk := head_kind_eq h
  cases d' with
  | cardinality opening' e' closing' =>
    simp only [tokens, List.cons_append, List.append_assoc, List.nil_append] at h
    obtain ⟨ho, h⟩ := List.cons.inj h
    obtain ⟨rfl, he⟩ := hexpr e' _ _ h (ends_tokenOf closing (by decide) _) (ends_tokenOf closing' (by decide) _)
    obtain ⟨hc, rfl⟩ := List.cons.inj he
    rw [Subtype.ext ho, Subtype.ext hc]
    exact ⟨rfl, rfl⟩
  | literal => exact (not_literal h (congrArg some opening.2) rfl).elim
  | _ => exact absurd hk (by simp)

/-- Behind the first element of a roster stands no bar. -/
theorem elements_ne_bar {rest : Derivation .elements} {closing : TokenOf .rightBrace} {bar : TokenOf .pipe}
    {more more' : List Token} (h : rest.tokens ++ closing.1 :: more = bar.1 :: more') : False := by
  have hk := head_kind_eq h
  rcases rest.begins with ⟨ht, -⟩ | ⟨token, tokens, ht, hf⟩
  · simp [ht] at hk
  · simp only [ht, List.cons_append, List.head?_cons, Option.map_some, Option.some.injEq, kind_tokenOf] at hk
    exact absurd hf (by rw [hk]; decide)

theorem alone_emptyRoster (opening : TokenOf .leftBrace) (closing : TokenOf .rightBrace) :
    (emptyRoster opening closing).Alone := by
  intro d' rest rest' h _ _
  have hk := head_kind_eq h
  cases d' with
  | emptyRoster opening' closing' =>
    simp only [tokens, List.cons_append, List.nil_append, List.cons.injEq] at h
    obtain ⟨ho, hc, rfl⟩ := h
    rw [Subtype.ext ho, Subtype.ext hc]
    exact ⟨rfl, rfl⟩
  | roster opening' e | comprehension opening' e =>
    simp only [tokens, List.cons_append, List.append_assoc, List.nil_append, List.cons.injEq] at h
    exact absurd (head_firsts h.2.symm) (by rw [kind_tokenOf]; decide)
  | literal => exact (not_literal h (congrArg some opening.2) rfl).elim
  | _ => exact absurd hk (by simp)

theorem alone_roster {opening : TokenOf .leftBrace} {first : Derivation .expression} {rest : Derivation .elements}
    {closing : TokenOf .rightBrace} (hfirst : first.Alone) (hrest : rest.Alone) :
    (roster opening first rest closing).Alone := by
  intro d' more more' h _ _
  have hk := head_kind_eq h
  cases d' with
  | roster opening' first' rest' closing' =>
    simp only [tokens, List.cons_append, List.append_assoc, List.nil_append, List.cons.injEq] at h
    obtain ⟨ho, h⟩ := h
    obtain ⟨rfl, hf⟩ := hfirst first' _ _ h (rest.ends_element (ends_tokenOf closing (by decide) _))
      (rest'.ends_element (ends_tokenOf closing' (by decide) _))
    obtain ⟨rfl, hr⟩ := hrest rest' _ _ hf (ends_tokenOf closing (by decide) _) (ends_tokenOf closing' (by decide) _)
    obtain ⟨hc, rfl⟩ := List.cons.inj hr
    rw [Subtype.ext ho, Subtype.ext hc]
    exact ⟨rfl, rfl⟩
  | emptyRoster opening' closing' =>
    simp only [tokens, List.cons_append, List.append_assoc, List.nil_append, List.cons.injEq] at h
    exact absurd (head_firsts h.2) (by rw [kind_tokenOf]; decide)
  | comprehension opening' result bar =>
    simp only [tokens, List.cons_append, List.append_assoc, List.nil_append, List.cons.injEq] at h
    obtain ⟨-, hf⟩ := hfirst result _ _ h.2 (rest.ends_element (ends_tokenOf closing (by decide) _))
      (ends_tokenOf bar (by decide) _)
    exact (elements_ne_bar hf).elim
  | literal => exact (not_literal h (congrArg some opening.2) rfl).elim
  | _ => exact absurd hk (by simp)

theorem alone_comprehension {opening : TokenOf .leftBrace} {result : Derivation .expression} {bar : TokenOf .pipe}
    {bound : Derivation .name} {word : TokenOf .inWord} {domain : Derivation .expression}
    {filter : Derivation .filter} {closing : TokenOf .rightBrace} (hresult : result.Alone) (hbound : bound.Alone)
    (hdomain : domain.Alone) (hfilter : filter.Alone) :
    (comprehension opening result bar bound word domain filter closing).Alone := by
  intro d' more more' h _ _
  have hk := head_kind_eq h
  cases d' with
  | comprehension opening' result' bar' bound' word' domain' filter' closing' =>
    simp only [tokens, List.cons_append, List.append_assoc, List.nil_append, List.cons.injEq] at h
    obtain ⟨ho, h⟩ := h
    obtain ⟨rfl, hr⟩ := hresult result' _ _ h (ends_tokenOf bar (by decide) _) (ends_tokenOf bar' (by decide) _)
    obtain ⟨hb, hr⟩ := List.cons.inj hr
    obtain ⟨rfl, hn⟩ := hbound bound' _ _ hr (ends_none _) (ends_none _)
    obtain ⟨hw, hn⟩ := List.cons.inj hn
    obtain ⟨rfl, hd⟩ := hdomain domain' _ _ hn (filter.ends_filter (ends_tokenOf closing (by decide) _))
      (filter'.ends_filter (ends_tokenOf closing' (by decide) _))
    obtain ⟨rfl, hf⟩ := hfilter filter' _ _ hd (ends_tokenOf closing (by decide) _)
      (ends_tokenOf closing' (by decide) _)
    obtain ⟨hc, rfl⟩ := List.cons.inj hf
    rw [Subtype.ext ho, Subtype.ext hb, Subtype.ext hw, Subtype.ext hc]
    exact ⟨rfl, rfl⟩
  | emptyRoster opening' closing' =>
    simp only [tokens, List.cons_append, List.append_assoc, List.nil_append, List.cons.injEq] at h
    exact absurd (head_firsts h.2) (by rw [kind_tokenOf]; decide)
  | roster opening' first rest closing =>
    simp only [tokens, List.cons_append, List.append_assoc, List.nil_append, List.cons.injEq] at h
    obtain ⟨-, hr⟩ := hresult first _ _ h.2 (ends_tokenOf bar (by decide) _)
      (rest.ends_element (ends_tokenOf closing (by decide) _))
    exact (elements_ne_bar hr.symm).elim
  | literal => exact (not_literal h (congrArg some opening.2) rfl).elim
  | _ => exact absurd hk (by simp)

theorem alone {s : Symbol} (d : Derivation s) : d.Alone := by
  induction d with
  | function _ _ _ _ _ _ _ _ hname hparameters hbody => exact alone_function hname hparameters hbody
  | binding _ _ _ _ _ hname hvalue => exact alone_binding hname hvalue
  | printing _ _ _ hvalue => exact alone_printing hvalue
  | statement _ _ hvalue => exact alone_statement hvalue
  | named token => exact alone_named token
  | assign _ _ _ htarget hvalue => exact alone_assign htarget hvalue
  | plain _ hexpr => exact alone_plain hexpr
  | chain _ _ hfirst hrest => exact alone_chain hfirst hrest
  | noOperand => exact alone_noOperand
  | operand _ _ _ _ _ _ hright hrest => exact alone_operand hright hrest
  | prefixed _ _ _ _ hexpr => exact alone_prefixed hexpr
  | bare _ hexpr => exact alone_bare hexpr
  | call _ _ hcallee hrest => exact alone_call hcallee hrest
  | noCall => exact alone_noCall
  | apply _ _ _ _ harguments hrest => exact alone_apply harguments hrest
  | noItems => exact alone_noItems
  | items _ _ hfirst hrest => exact alone_items hfirst hrest
  | lastItem => exact alone_lastItem
  | item _ _ _ hnext hrest => exact alone_item hnext hrest
  | literal => exact alone_literal
  | reference name => exact alone_reference name
  | group _ _ _ hexpr => exact alone_group hexpr
  | cardinality _ _ _ hexpr => exact alone_cardinality hexpr
  | emptyRoster opening closing => exact alone_emptyRoster opening closing
  | roster _ _ _ _ hfirst hrest => exact alone_roster hfirst hrest
  | comprehension _ _ _ _ _ _ _ _ hresult hbound hdomain hfilter =>
    exact alone_comprehension hresult hbound hdomain hfilter
  | lastElement => exact alone_lastElement
  | element _ _ _ hexpr hrest => exact alone_element hexpr hrest
  | noFilter => exact alone_noFilter
  | filtered _ _ hexpr => exact alone_filtered hexpr

/-- Two derivations of one symbol, each in front of a stream that does not continue it, are equal when the
texts are. -/
theorem unique {s : Symbol} (d d' : Derivation s) {rest rest' : List Token}
    (h : d.tokens ++ rest = d'.tokens ++ rest') (he : Ends s.continuedBy rest) (he' : Ends s.continuedBy rest') :
    d = d' ∧ rest = rest' := d.alone d' rest rest' h he he'

theorem tokens_injective {s : Symbol} {d d' : Derivation s} (h : d.tokens = d'.tokens) : d = d' :=
  (d.alone d' [] [] (by rw [h]) (ends_nil _) (ends_nil _)).1

/-- Two programs with one text consist of the same declarations. -/
theorem flatMap_tokens_injective {ds ds' : List (Derivation .declaration)}
    (h : ds.flatMap tokens = ds'.flatMap tokens) : ds = ds' := by
  induction ds generalizing ds' with
  | nil =>
    cases ds' with
    | nil => rfl
    | cons d' ds' =>
      obtain ⟨token, more, ht, -⟩ := d'.exists_head rfl
      simp [ht] at h
  | cons d ds ih =>
    cases ds' with
    | nil =>
      obtain ⟨token, more, ht, -⟩ := d.exists_head rfl
      simp [ht] at h
    | cons d' ds' =>
      rw [List.flatMap_cons, List.flatMap_cons] at h
      obtain ⟨rfl, hs⟩ := d.unique d' h (ends_none _) (ends_none _)
      rw [ih hs]

end Derivation

end SetScript.Grammar
