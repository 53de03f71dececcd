import SetScript.Parser.Program
/-!
# The grammar

```
declaration := "def" IDENT "(" (IDENT ("," IDENT)*)? ")" "=" assignment ";"
             | "let" IDENT "=" assignment ";" | "print" assignment ";" | assignment ";"
assignment  := equality "=" assignment | equality
layer       := operand (operator operand)*
unary       := ("-" | "!") unary | call
call        := primary ("(" (assignment ("," assignment)*)? ")")*
primary     := NUMBER | STRING | "true" | "false" | IDENT | "(" assignment ")" | "|" assignment "|"
             | "{" "}" | "{" assignment ("," assignment)* "}"
             | "{" assignment "|" IDENT "in" assignment ("," assignment)? "}"
```

The layers are, from the loosest: equality, comparison, membership, union, intersection, term, factor. The
operand of a layer is the next one, and that of the last is `unary`. A `Derivation` is a tree of these rules
with tokens at its leaves. Left of `=` the rule for assignments takes all that the layers give; in a `Proper`
derivation a single identifier stands there, and argument and parameter lists have at most 255 items.
-/

namespace SetScript.Grammar

/-- The layers of infix operators. -/
inductive Layer where
  | equality | comparison | membership | union | intersection | term | factor
  deriving DecidableEq

/-- What stands in a list: a name, or an expression from the rule for assignments. -/
inductive Item where
  | name | expression
  deriving DecidableEq

/-- A part of an expression that stands for an expression of its own. -/
inductive Phrase where
  | layer (layer : Layer) | unary | call | primary
  deriving DecidableEq

/-- The operators of a layer. -/
def Layer.ops : Layer → List BinaryOp
  | .equality => [.equal, .notEqual]
  | .comparison => [.subseteq, .greater, .greaterEqual, .less, .lessEqual]
  | .membership => [.member]
  | .union => [.union]
  | .intersection => [.intersect]
  | .term => [.add, .sub]
  | .factor => [.mul, .div, .rem]

/-- What stands between the operators of a layer. -/
def Layer.operand : Layer → Phrase
  | .equality => .layer .comparison
  | .comparison => .layer .membership
  | .membership => .layer .union
  | .union => .layer .intersection
  | .intersection => .layer .term
  | .term => .layer .factor
  | .factor => .unary

/-- What is derived: a declaration, an expression, or a part of a rule. -/
inductive Symbol where
  | declaration
  /-- `IDENT` or `assignment` -/
  | item (item : Item)
  | phrase (phrase : Phrase)
  /-- `(operator operand)*` -/
  | operands (layer : Layer)
  /-- `("(" arguments ")")*` -/
  | calls
  /-- `(item ("," item)*)?` -/
  | items (item : Item)
  /-- `("," item)*` in such a list, behind `before` items. -/
  | moreItems (item : Item) (before : Nat)
  /-- `("," assignment)*` in a roster. -/
  | elements
  /-- `("," assignment)?` -/
  | filter

/-- A token of a given kind. -/
abbrev TokenOf (kind : Kind) := { token : Token // token.kind = kind }

/-- Numbers, strings and the two truth values. -/
def isLiteral (kind : Kind) : Bool := kind ∈ [Kind.number, .string, .trueWord, .falseWord]

abbrev Symbol.name : Symbol := .item .name

abbrev Symbol.expression : Symbol := .item .expression

/-- The derivations of a symbol. -/
inductive Derivation : Symbol → Type where
  | function (word : TokenOf .defWord) (name : Derivation .name) (opening : TokenOf .leftParen)
      (parameters : Derivation (.items .name)) (closing : TokenOf .rightParen) (sign : TokenOf .equal)
      (body : Derivation .expression) (semicolon : TokenOf .semicolon) : Derivation .declaration
  | binding (word : TokenOf .letWord) (name : Derivation .name) (sign : TokenOf .equal)
      (value : Derivation .expression) (semicolon : TokenOf .semicolon) : Derivation .declaration
  | printing (word : TokenOf .printWord) (value : Derivation .expression) (semicolon : TokenOf .semicolon) :
      Derivation .declaration
  | statement (value : Derivation .expression) (semicolon : TokenOf .semicolon) : Derivation .declaration
  | named (token : TokenOf .identifier) : Derivation .name
  | assign (target : Derivation (.phrase (.layer .equality))) (sign : TokenOf .equal)
      (value : Derivation .expression) : Derivation .expression
  | plain (e : Derivation (.phrase (.layer .equality))) : Derivation .expression
  | chain {layer : Layer} (first : Derivation (.phrase layer.operand)) (rest : Derivation (.operands layer)) :
      Derivation (.phrase (.layer layer))
  | noOperand {layer : Layer} : Derivation (.operands layer)
  | operand {layer : Layer} (sign : Token) (op : BinaryOp) (spells : BinaryOp.ofKind? sign.kind = some op)
      (inLayer : op ∈ layer.ops) (right : Derivation (.phrase layer.operand))
      (rest : Derivation (.operands layer)) : Derivation (.operands layer)
  | prefixed (sign : Token) (op : UnaryOp) (spells : UnaryOp.ofKind? sign.kind = some op)
      (e : Derivation (.phrase .unary)) : Derivation (.phrase .unary)
  | bare (e : Derivation (.phrase .call)) : Derivation (.phrase .unary)
  | call (callee : Derivation (.phrase .primary)) (rest : Derivation .calls) : Derivation (.phrase .call)
  | noCall : Derivation .calls
  | apply (opening : TokenOf .leftParen) (arguments : Derivation (.items .expression))
      (closing : TokenOf .rightParen) (rest : Derivation .calls) : Derivation .calls
  | noItems {item : Item} : Derivation (.items item)
  | items {item : Item} (first : Derivation (.item item)) (rest : Derivation (.moreItems item 1)) :
      Derivation (.items item)
  | lastItem {item : Item} {before : Nat} : Derivation (.moreItems item before)
  | item {item : Item} {before : Nat} (comma : TokenOf .comma) (next : Derivation (.item item))
      (rest : Derivation (.moreItems item (before + 1))) : Derivation (.moreItems item before)
  | literal (token : Token) (value : Literal) (isLiteral : isLiteral token.kind = true)
      (stands : token.literal? = some value) : Derivation (.phrase .primary)
  | reference (name : TokenOf .identifier) : Derivation (.phrase .primary)
  | group (opening : TokenOf .leftParen) (e : Derivation .expression) (closing : TokenOf .rightParen) :
      Derivation (.phrase .primary)
  | cardinality (opening : TokenOf .pipe) (e : Derivation .expression) (closing : TokenOf .pipe) :
      Derivation (.phrase .primary)
  | emptyRoster (opening : TokenOf .leftBrace) (closing : TokenOf .rightBrace) : Derivation (.phrase .primary)
  | roster (opening : TokenOf .leftBrace) (first : Derivation .expression) (rest : Derivation .elements)
      (closing : TokenOf .rightBrace) : Derivation (.phrase .primary)
  | comprehension (opening : TokenOf .leftBrace) (result : Derivation .expression) (bar : TokenOf .pipe)
      (bound : Derivation .name) (word : TokenOf .inWord) (domain : Derivation .expression)
      (filter : Derivation .filter) (closing : TokenOf .rightBrace) : Derivation (.phrase .primary)
  | lastElement : Derivation .elements
  | element (comma : TokenOf .comma) (e : Derivation .expression) (rest : Derivation .elements) :
      Derivation .elements
  | noFilter : Derivation .filter
  | filtered (comma : TokenOf .comma) (e : Derivation .expression) : Derivation .filter

namespace Derivation

/-- The tokens at the leaves. -/
@[simp] def tokens {s : Symbol} : Derivation s → List Token
  | function word name opening parameters closing sign body semicolon =>
    word.1 :: name.tokens ++ opening.1 :: parameters.tokens ++ closing.1 :: sign.1 :: body.tokens ++ [semicolon.1]
  | binding word name sign value semicolon => word.1 :: name.tokens ++ sign.1 :: value.tokens ++ [semicolon.1]
  | printing word value semicolon => word.1 :: value.tokens ++ [semicolon.1]
  | statement value semicolon => value.tokens ++ [semicolon.1]
  | named token => [token.1]
  | assign target sign value => target.tokens ++ sign.1 :: value.tokens
  | plain e => e.tokens
  | chain first rest => first.tokens ++ rest.tokens
  | noOperand => []
  | operand sign _ _ _ right rest => sign :: right.tokens ++ rest.tokens
  | prefixed sign _ _ e => sign :: e.tokens
  | bare e => e.tokens
  | call callee rest => callee.tokens ++ rest.tokens
  | noCall => []
  | apply opening arguments closing rest => opening.1 :: arguments.tokens ++ closing.1 :: rest.tokens
  | noItems => []
  | items first rest => first.tokens ++ rest.tokens
  | lastItem => []
  | item comma next rest => comma.1 :: next.tokens ++ rest.tokens
  | literal token _ _ _ => [token]
  | reference name => [name.1]
  | group opening e closing => opening.1 :: e.tokens ++ [closing.1]
  | cardinality opening e closing => opening.1 :: e.tokens ++ [closing.1]
  | emptyRoster opening closing => [opening.1, closing.1]
  | roster opening first rest closing => opening.1 :: first.tokens ++ rest.tokens ++ [closing.1]
  | comprehension opening result bar bound word domain filter closing =>
    opening.1 :: result.tokens ++ bar.1 :: bound.tokens ++ word.1 :: domain.tokens ++ filter.tokens ++ [closing.1]
  | lastElement => []
  | element comma e rest => comma.1 :: e.tokens ++ rest.tokens
  | noFilter => []
  | filtered comma e => comma.1 :: e.tokens

/-- The line of the first token. -/
def line {s : Symbol} (d : Derivation s) : Nat := currentLine 0 d.tokens

/-- How many levels deep the expressions in a derivation stand: each expression, with each right side of `=`,
and each operand of a prefix operator is one level. -/
@[simp] def depth {s : Symbol} : Derivation s → Nat
  | function _ _ _ _ _ _ body _ => body.depth
  | binding _ _ _ value _ => value.depth
  | printing _ value _ => value.depth
  | statement value _ => value.depth
  | assign target _ value => max target.depth value.depth + 1
  | plain e => e.depth + 1
  | chain first rest => max first.depth rest.depth
  | operand _ _ _ _ right rest => max right.depth rest.depth
  | prefixed _ _ _ e => e.depth + 1
  | bare e => e.depth
  | call callee rest => max callee.depth rest.depth
  | apply _ arguments _ rest => max arguments.depth rest.depth
  | items first rest => max first.depth rest.depth
  | item _ next rest => max next.depth rest.depth
  | group _ e _ => e.depth
  | cardinality _ e _ => e.depth
  | roster _ first rest _ => max first.depth rest.depth
  | comprehension _ result _ _ _ domain filter _ => max result.depth (max domain.depth filter.depth)
  | element _ e rest => max e.depth rest.depth
  | filtered _ e => e.depth
  | named _ | noOperand | noCall | noItems | lastItem | literal _ _ _ _ | reference _ | emptyRoster _ _
  | lastElement | noFilter => 0

end Derivation

/-- What an item is read as. -/
abbrev Item.Tree : Item → Type
  | name => Token
  | expression => Expr

/-- What a derivation of a symbol is read as. What can follow an expression makes a new one of it. -/
abbrev Symbol.Tree : Symbol → Type
  | declaration => Statement
  | item i => i.Tree
  | phrase _ => Expr
  | operands _ | calls => Expr → Expr
  | items i | moreItems i _ => List i.Tree
  | elements => List Expr
  | filter => Option Expr

namespace Derivation

/-- The tree that a derivation is read as: infix operators lean left and assignments right. -/
@[simp] def tree : {s : Symbol} → Derivation s → s.Tree
  | _, function _ name _ parameters _ _ body _ => Statement.function name.tree parameters.tree body.tree
  | _, binding _ name _ value _ => Statement.let name.tree value.tree
  | _, printing _ value _ => Statement.print value.tree
  | _, statement value _ => Statement.expression value.tree
  | _, named token => token.1
  | _, assign target _ value =>
    match target.tree with
    | .variable name => Expr.assign name value.tree
    | other => other
  | _, plain e => e.tree
  | _, chain first rest => rest.tree first.tree
  | _, noOperand => fun left => left
  | _, operand sign op _ _ right rest => fun left => rest.tree (.binary op sign left right.tree)
  | _, prefixed sign op _ e => Expr.unary op sign e.tree
  | _, bare e => e.tree
  | _, call callee rest => rest.tree callee.tree
  | _, noCall => fun callee => callee
  | _, apply _ arguments closing rest => fun callee => rest.tree (.call closing.1 callee arguments.tree)
  | _, noItems => []
  | _, items first rest => first.tree :: rest.tree
  | _, lastItem => []
  | _, item _ next rest => next.tree :: rest.tree
  | _, literal _ value _ _ => Expr.literal value
  | _, reference name => Expr.variable name.1
  | _, group _ e _ => Expr.group e.tree
  | _, cardinality opening e _ => Expr.cardinality opening.1 e.tree
  | _, emptyRoster _ _ => Expr.roster []
  | _, roster _ first rest _ => Expr.roster (first.tree :: rest.tree)
  | _, comprehension _ result _ bound _ domain filter _ =>
    Expr.comprehension result.tree bound.tree domain.tree filter.tree
  | _, lastElement => []
  | _, element _ e rest => e.tree :: rest.tree
  | _, noFilter => none
  | _, filtered _ e => some e.tree

/-- What the parser reports about a derivation, in order: the target of an assignment that is no variable, once
the value is read, and the first item that a full list has no place for, before it is read. -/
@[simp] def reports {s : Symbol} : Derivation s → List SyntaxError
  | function _ _ _ parameters _ _ body _ => parameters.reports ++ body.reports
  | binding _ _ _ value _ => value.reports
  | printing _ value _ => value.reports
  | statement value _ => value.reports
  | assign target sign value =>
    target.reports ++ value.reports ++
      match target.tree with
      | .variable _ => []
      | _ => [⟨.invalidAssignmentTarget, sign.1.line⟩]
  | plain e => e.reports
  | chain first rest => first.reports ++ rest.reports
  | operand _ _ _ _ right rest => right.reports ++ rest.reports
  | prefixed _ _ _ e => e.reports
  | bare e => e.reports
  | call callee rest => callee.reports ++ rest.reports
  | apply _ arguments _ rest => arguments.reports ++ rest.reports
  | items first rest => first.reports ++ rest.reports
  | @item _ before _ next rest =>
    (if before = 255 then [⟨.tooManyArguments 255, next.line⟩] else []) ++ next.reports ++ rest.reports
  | group _ e _ => e.reports
  | cardinality _ e _ => e.reports
  | roster _ first rest _ => first.reports ++ rest.reports
  | comprehension _ result _ _ _ domain filter _ => result.reports ++ domain.reports ++ filter.reports
  | element _ e rest => e.reports ++ rest.reports
  | filtered _ e => e.reports
  | named _ | noOperand | noCall | noItems | lastItem | literal _ _ _ _ | reference _ | emptyRoster _ _
  | lastElement | noFilter => []

/-- Left of every `=` stands one identifier, and argument and parameter lists have at most 255 items. -/
@[simp] def Proper {s : Symbol} : Derivation s → Prop
  | function _ _ _ parameters _ _ body _ => parameters.tree.length ≤ 255 ∧ parameters.Proper ∧ body.Proper
  | binding _ _ _ value _ => value.Proper
  | printing _ value _ => value.Proper
  | statement value _ => value.Proper
  | assign target _ value => target.tokens.map (·.kind) = [.identifier] ∧ value.Proper
  | plain e => e.Proper
  | chain first rest => first.Proper ∧ rest.Proper
  | operand _ _ _ _ right rest => right.Proper ∧ rest.Proper
  | prefixed _ _ _ e => e.Proper
  | bare e => e.Proper
  | call callee rest => callee.Proper ∧ rest.Proper
  | apply _ arguments _ rest => arguments.tree.length ≤ 255 ∧ arguments.Proper ∧ rest.Proper
  | items first rest => first.Proper ∧ rest.Proper
  | item _ next rest => next.Proper ∧ rest.Proper
  | group _ e _ => e.Proper
  | cardinality _ e _ => e.Proper
  | roster _ first rest _ => first.Proper ∧ rest.Proper
  | comprehension _ result _ _ _ domain filter _ => result.Proper ∧ domain.Proper ∧ filter.Proper
  | element _ e rest => e.Proper ∧ rest.Proper
  | filtered _ e => e.Proper
  | named _ | noOperand | noCall | noItems | lastItem | literal _ _ _ _ | reference _ | emptyRoster _ _
  | lastElement | noFilter => True

end Derivation

end SetScript.Grammar
