import SetScript.Proofs.Grammar.Derivation
/-!
# One token of lookahead

`Symbol.firsts` are the kinds of token that a symbol can begin with, and `Symbol.continuedBy` those that make it
longer when they stand behind it. Every derivation begins as its symbol does (`Derivation.begins`), and behind each
part of a derivation stands nothing that continues the part.
-/

namespace SetScript.Grammar

/-- The kinds of token that spell an operator of a layer. -/
def Layer.kinds : Layer → List Kind
  | .equality => [.equalEqual, .bangEqual]
  | .comparison => [.subseteqWord, .greater, .greaterEqual, .less, .lessEqual]
  | .membership => [.inWord]
  | .union => [.unionWord]
  | .intersection => [.intersectWord]
  | .term => [.plus, .minus]
  | .factor => [.star, .slash, .percent]

/-- The layers that bind tighter. -/
def Layer.tighter : Layer → List Layer
  | .equality => [.comparison, .membership, .union, .intersection, .term, .factor]
  | .comparison => [.membership, .union, .intersection, .term, .factor]
  | .membership => [.union, .intersection, .term, .factor]
  | .union => [.intersection, .term, .factor]
  | .intersection => [.term, .factor]
  | .term => [.factor]
  | .factor => []

/-- The kinds of token that continue the operands of a layer. -/
def Layer.continuedBelow (l : Layer) : List Kind := l.tighter.flatMap kinds ++ [.leftParen]

def Phrase.continuedBy : Phrase → List Kind
  | layer l => l.kinds ++ l.continuedBelow
  | unary | call => [.leftParen]
  | primary => []

def Item.continuedBy : Item → List Kind
  | name => []
  | expression => .equal :: (Phrase.layer .equality).continuedBy

/-- The kinds of token that a phrase can begin with. -/
def Phrase.firsts : Phrase → List Kind
  | primary | call => [.number, .string, .trueWord, .falseWord, .identifier, .leftParen, .pipe, .leftBrace]
  | unary | layer _ => [.minus, .bang, .number, .string, .trueWord, .falseWord, .identifier, .leftParen, .pipe,
      .leftBrace]

def Item.firsts : Item → List Kind
  | name => [.identifier]
  | expression => Phrase.unary.firsts

/-- The kinds of token that make a derivation of a symbol longer when they stand behind it. -/
def Symbol.continuedBy : Symbol → List Kind
  | declaration => []
  | item i => i.continuedBy
  | phrase p => p.continuedBy
  | operands l => (Phrase.layer l).continuedBy
  | calls => [.leftParen]
  | items i => .comma :: (i.firsts ++ i.continuedBy)
  | moreItems i _ => .comma :: i.continuedBy
  | elements | filter => .comma :: Item.expression.continuedBy

/-- The kinds of token that a symbol can begin with. -/
def Symbol.firsts : Symbol → List Kind
  | declaration => .defWord :: .letWord :: .printWord :: Phrase.unary.firsts
  | item i | items i => i.firsts
  | phrase p => p.firsts
  | operands l => l.kinds
  | calls => [.leftParen]
  | moreItems _ _ | elements | filter => [.comma]

/-- Whether nothing may stand for a symbol. -/
def Symbol.optional : Symbol → Bool
  | declaration | item _ | phrase _ => false
  | operands _ | calls | items _ | moreItems _ _ | elements | filter => true

/-- The stream does not go on with one of the given kinds of token. -/
def Ends (kinds : List Kind) (rest : List Token) : Prop := ∀ token ∈ rest.head?, token.kind ∉ kinds

@[simp] theorem ends_nil (kinds : List Kind) : Ends kinds [] := by simp [Ends]

@[simp] theorem ends_cons {kinds : List Kind} {token : Token} {rest : List Token} :
    Ends kinds (token :: rest) ↔ token.kind ∉ kinds := by simp [Ends]

theorem Ends.mono {kinds kinds' : List Kind} {rest : List Token} (h : Ends kinds' rest) (hs : kinds ⊆ kinds') :
    Ends kinds rest := fun token ht hk => h token ht (hs hk)

/-! ## Facts about single kinds -/

theorem Layer.mem_kinds {l : Layer} {kind : Kind} {op : BinaryOp} (spells : BinaryOp.ofKind? kind = some op)
    (h : op ∈ l.ops) : kind ∈ l.kinds := by
  cases kind <;> cases spells <;> revert h <;> cases l <;> decide

theorem Layer.not_mem_continuedBelow {l : Layer} {kind : Kind} (h : kind ∈ l.kinds) : kind ∉ l.continuedBelow := by
  revert h
  cases l <;> cases kind <;> decide

theorem Layer.exists_op {l : Layer} {kind : Kind} (h : kind ∈ l.kinds) :
    ∃ op ∈ l.ops, BinaryOp.ofKind? kind = some op := by
  revert h
  cases l <;> cases kind <;> decide

theorem Layer.operand_continuedBy (l : Layer) : l.operand.continuedBy = l.continuedBelow := by
  cases l <;> rfl

/-- Where something may stand for a symbol or not, what it begins with continues the symbol. -/
theorem Symbol.firsts_subset {s : Symbol} (h : s.optional = true) : s.firsts ⊆ s.continuedBy := by
  cases s with
  | declaration | item | phrase => cases h
  | operands l => exact List.subset_append_left _ _
  | calls => exact List.Subset.refl _
  | items i => exact fun _ hk => List.mem_cons_of_mem _ (List.mem_append_left _ hk)
  | moreItems | elements | filter => exact List.cons_subset_cons _ (List.nil_subset _)

/-! ## How a derivation begins -/

/-- The tokens begin as those of the symbol do. -/
def Symbol.Begins (s : Symbol) (tokens : List Token) : Prop :=
  (tokens = [] ∧ s.optional = true) ∨ ∃ token rest, tokens = token :: rest ∧ token.kind ∈ s.firsts

theorem Symbol.begins_cons {s : Symbol} {token : Token} (h : token.kind ∈ s.firsts) (rest : List Token) :
    s.Begins (token :: rest) := .inr ⟨token, rest, rfl, h⟩

/-- A symbol that begins with another one, which stands for something, begins like it. -/
theorem Symbol.Begins.append {s s' : Symbol} {tokens : List Token} (h : s'.Begins tokens)
    (hs : s'.optional = false) (sub : s'.firsts ⊆ s.firsts) (more : List Token) : s.Begins (tokens ++ more) := by
  rcases h with ⟨-, ho⟩ | ⟨token, rest, rfl, hk⟩
  · exact absurd ho (by simp [hs])
  · exact begins_cons (sub hk) _

theorem UnaryOp.mem_firsts {kind : Kind} {op : UnaryOp} (spells : UnaryOp.ofKind? kind = some op) :
    kind ∈ Phrase.unary.firsts := by
  cases kind <;> cases spells <;> decide

theorem UnaryOp.not_mem_firsts {kind : Kind} {op : UnaryOp} (spells : UnaryOp.ofKind? kind = some op) :
    kind ∉ Phrase.call.firsts := by
  cases kind <;> cases spells <;> decide

theorem mem_firsts_of_isLiteral {kind : Kind} (h : isLiteral kind = true) : kind ∈ Phrase.primary.firsts := by
  revert h
  cases kind <;> decide

theorem Layer.operand_firsts (l : Layer) : l.operand.firsts = Phrase.unary.firsts := by
  cases l <;> rfl

namespace Derivation

theorem begins {s : Symbol} (d : Derivation s) : s.Begins d.tokens := by
  induction d with
  | function word | binding word | printing word => exact Symbol.begins_cons (by rw [word.2]; decide) _
  | statement value semicolon ih => exact ih.append rfl (by decide) _
  | named token => exact Symbol.begins_cons (by rw [token.2]; decide) _
  | assign target sign value ih => exact ih.append rfl (by decide) _
  | plain e ih => exact ih
  | @chain l first rest ih => exact ih.append rfl (fun _ hk => by rwa [Symbol.firsts, l.operand_firsts] at hk) _
  | operand sign op spells inLayer => exact Symbol.begins_cons (Layer.mem_kinds spells inLayer) _
  | prefixed sign op spells => exact Symbol.begins_cons (UnaryOp.mem_firsts spells) _
  | bare e ih =>
    have := ih.append (s := .phrase .unary) rfl (by decide) []
    rwa [List.append_nil] at this
  | call callee rest ih => exact ih.append rfl (by decide) _
  | apply opening => exact Symbol.begins_cons (by rw [opening.2]; decide) _
  | @items item first rest ih => exact ih.append rfl (by simp [Symbol.firsts]) _
  | item comma | element comma | filtered comma => exact Symbol.begins_cons (by rw [comma.2]; simp [Symbol.firsts]) _
  | literal token value isLiteral => exact Symbol.begins_cons (mem_firsts_of_isLiteral isLiteral) _
  | reference name => exact Symbol.begins_cons (by rw [name.2]; decide) _
  | group opening | cardinality opening | emptyRoster opening | roster opening | comprehension opening =>
    exact Symbol.begins_cons (by rw [opening.2]; decide) _
  | noOperand | noCall | noItems | lastItem | lastElement | noFilter => exact .inl ⟨rfl, rfl⟩

/-- What cannot continue a stream's beginning cannot be its first token, nor that of a derivation before it. -/
theorem ends_append {s : Symbol} (d : Derivation s) {kinds : List Kind} {rest : List Token}
    (hs : ∀ kind ∈ s.firsts, kind ∉ kinds) (h : Ends kinds rest) : Ends kinds (d.tokens ++ rest) := by
  rcases d.begins with ⟨ht, -⟩ | ⟨token, more, ht, hk⟩
  · rwa [ht, List.nil_append]
  · rw [ht, List.cons_append, ends_cons]
    exact hs _ hk

/-- A derivation that may not be empty has a first token. -/
theorem exists_head {s : Symbol} (d : Derivation s) (hs : s.optional = false) :
    ∃ token rest, d.tokens = token :: rest ∧ token.kind ∈ s.firsts := by
  rcases d.begins with ⟨-, ho⟩ | h
  · exact absurd ho (by simp [hs])
  · exact h

end Derivation

/-! ## What stands behind a part -/

@[simp] theorem kind_tokenOf {kind : Kind} (token : TokenOf kind) : token.1.kind = kind := token.2

theorem ends_tokenOf {kind : Kind} (token : TokenOf kind) {kinds : List Kind} (h : kind ∉ kinds)
    (rest : List Token) : Ends kinds (token.1 :: rest) := by
  rwa [ends_cons, token.2]

theorem ends_none (rest : List Token) : Ends [] rest := fun _ _ => List.not_mem_nil

/-- Streams that are equal begin with the same kind of token. -/
theorem head_kind_eq {tokens tokens' : List Token} (h : tokens = tokens') :
    tokens.head?.map (·.kind) = tokens'.head?.map (·.kind) := by rw [h]

namespace Derivation

/-- Behind an operand stands nothing that continues it. -/
theorem ends_operand {l : Layer} (d : Derivation (.operands l)) {rest : List Token}
    (h : Ends (Phrase.layer l).continuedBy rest) : Ends l.operand.continuedBy (d.tokens ++ rest) :=
  l.operand_continuedBy ▸ d.ends_append (fun _ hk => Layer.not_mem_continuedBelow hk)
    (h.mono (List.subset_append_right _ _))

/-- Behind an item of a list stands nothing that continues it. -/
theorem ends_item {i : Item} {before : Nat} (d : Derivation (.moreItems i before)) {rest : List Token}
    (h : Ends (Symbol.moreItems i before).continuedBy rest) : Ends i.continuedBy (d.tokens ++ rest) := by
  have comma : ∀ kind ∈ [Kind.comma], kind ∉ i.continuedBy := by cases i <;> decide
  exact d.ends_append comma (h.mono (List.subset_cons_self _ _))

/-- Behind an element of a roster stands nothing that continues it. -/
theorem ends_element (d : Derivation .elements) {rest : List Token} (h : Ends Symbol.elements.continuedBy rest) :
    Ends Item.expression.continuedBy (d.tokens ++ rest) :=
  d.ends_append (by decide) (h.mono (List.subset_cons_self _ _))

/-- Behind the domain of a comprehension stands nothing that continues it. -/
theorem ends_filter (d : Derivation .filter) {rest : List Token} (h : Ends Symbol.filter.continuedBy rest) :
    Ends Item.expression.continuedBy (d.tokens ++ rest) :=
  d.ends_append (by decide) (h.mono (List.subset_cons_self _ _))

theorem ends_items {i : Item} {before : Nat} {rest : List Token}
    (h : Ends (Symbol.items i).continuedBy rest) : Ends (Symbol.moreItems i before).continuedBy rest :=
  h.mono (List.cons_subset_cons _ (List.subset_append_right _ _))

/-- What does not continue an expression does not continue what stands left of `=`. -/
theorem ends_target {rest : List Token} (h : Ends Item.expression.continuedBy rest) :
    Ends (Phrase.layer .equality).continuedBy rest := h.mono (List.subset_cons_self _ _)

theorem ends_sign (sign : TokenOf .equal) (rest : List Token) :
    Ends (Phrase.layer .equality).continuedBy (sign.1 :: rest) := ends_tokenOf sign (by decide) rest

/-- Nothing but an empty derivation stands where an empty one does. -/
theorem tokens_eq_nil {s : Symbol} {d d' : Derivation s} {rest rest' : List Token}
    (h : d.tokens ++ rest = d'.tokens ++ rest') (he : Ends s.continuedBy rest') (ht : d'.tokens = []) :
    d.tokens = [] := by
  rcases d.begins with ⟨hd, -⟩ | ⟨token, more, hd, hk⟩
  · exact hd
  · rcases d'.begins with ⟨-, ho⟩ | ⟨token', more', hd', -⟩
    · rw [ht, List.nil_append, hd, List.cons_append] at h
      rw [← h, ends_cons] at he
      exact absurd (Symbol.firsts_subset ho hk) he
    · exact absurd (ht.symm.trans hd') (by simp)

end Derivation

end SetScript.Grammar
