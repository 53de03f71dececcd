import SetScript.Proofs.RoundTrip
/-!
# The height of trees

The nesting limit counts the levels on which expressions stand inside each other: at most `maxNesting` of them are
opened one inside the other (`height_le_levels_mul_run`). It does not count the nodes that are put on each other on one
level, as the loops for infix operators and for argument lists do. So there are programs without an error whose trees
are as high as you like (`height_unbounded`).
-/

namespace SetScript

open Grammar

/-! ## Measures of trees -/

namespace Expr

mutual

/-- The number of nodes on the longest way down. -/
def height : Expr → Nat
  | .literal _ | .variable _ => 1
  | .group inner => inner.height + 1
  | .unary _ _ operand => operand.height + 1
  | .binary _ _ left right => max left.height right.height + 1
  | .roster elements => heightOfAll elements + 1
  | .comprehension result _ domain filter? => max result.height (max domain.height (heightOf? filter?)) + 1
  | .cardinality _ operand => operand.height + 1
  | .call _ callee arguments => max callee.height (heightOfAll arguments) + 1
  | .assign _ value => value.height + 1

def heightOfAll : List Expr → Nat
  | [] => 0
  | e :: es => max e.height (heightOfAll es)

def heightOf? : Option Expr → Nat
  | none => 0
  | some e => e.height

end

mutual

/-- The most levels that are opened on a way down. Operands of an infix operator and what is called stay on the level
of their node, all else inside a node is one level deeper. -/
def levels : Expr → Nat
  | .literal _ | .variable _ => 0
  | .group inner => inner.levels + 1
  | .unary _ _ operand => operand.levels + 1
  | .binary _ _ left right => max left.levels right.levels
  | .roster elements => levelsOfAll elements
  | .comprehension result _ domain filter? => max (result.levels + 1) (max (domain.levels + 1) (levelsOf? filter?))
  | .cardinality _ operand => operand.levels + 1
  | .call _ callee arguments => max callee.levels (levelsOfAll arguments)
  | .assign _ value => value.levels + 1

def levelsOfAll : List Expr → Nat
  | [] => 0
  | e :: es => max (e.levels + 1) (levelsOfAll es)

def levelsOf? : Option Expr → Nat
  | none => 0
  | some e => e.levels + 1

end

/-- The number of nodes on the longest way down that opens no level. -/
def run : Expr → Nat
  | .binary _ _ left right => max left.run right.run + 1
  | .call _ callee _ => callee.run + 1
  | _ => 1

mutual

/-- The longest run on any level. -/
def longestRun : Expr → Nat
  | .literal _ | .variable _ => 1
  | .group inner => max 1 inner.longestRun
  | .unary _ _ operand => max 1 operand.longestRun
  | .binary op operator left right => max (run (.binary op operator left right)) (max left.longestRun right.longestRun)
  | .roster elements => max 1 (longestRunOfAll elements)
  | .comprehension result _ domain filter? =>
    max 1 (max result.longestRun (max domain.longestRun (longestRunOf? filter?)))
  | .cardinality _ operand => max 1 operand.longestRun
  | .call paren callee arguments =>
    max (run (.call paren callee arguments)) (max callee.longestRun (longestRunOfAll arguments))
  | .assign _ value => max 1 value.longestRun

def longestRunOfAll : List Expr → Nat
  | [] => 0
  | e :: es => max e.longestRun (longestRunOfAll es)

def longestRunOf? : Option Expr → Nat
  | none => 0
  | some e => e.longestRun

end

/-! ## Height from levels and runs -/

theorem run_le_longestRun (e : Expr) : e.run ≤ e.longestRun := by
  cases e with
  | literal | «variable» => exact Nat.le_refl 1
  | _ => exact Nat.le_max_left ..

/-- An expression on a level of its own takes at most a run more. -/
theorem height_le_of_opened {bound : Nat} {e : Expr} (h : e.height ≤ e.levels * bound + e.run)
    (hr : e.longestRun ≤ bound) : e.height ≤ (e.levels + 1) * bound := by
  have run := e.run_le_longestRun.trans hr
  rw [Nat.add_one_mul]
  omega

theorem max_le_mul {height height' levels levels' bound : Nat} (h : height ≤ levels * bound)
    (h' : height' ≤ levels' * bound) : max height height' ≤ max levels levels' * bound :=
  (max_le_max h h').trans (Nat.mul_max_mul_right ..).le

theorem max_le_mul_add {height height' levels levels' run run' bound : Nat} (h : height ≤ levels * bound + run)
    (h' : height' ≤ levels' * bound + run') : max height height' ≤ max levels levels' * bound + max run run' :=
  Nat.max_le.mpr ⟨h.trans (Nat.add_le_add (Nat.mul_le_mul_right _ (Nat.le_max_left ..)) (Nat.le_max_left ..)),
    h'.trans (Nat.add_le_add (Nat.mul_le_mul_right _ (Nat.le_max_right ..)) (Nat.le_max_right ..))⟩

mutual

/-- On every level a way down takes at most a longest run. What opens a level starts a run of its own there; what stays
on the level only adds to the run of its node. -/
theorem height_le_of_longestRun_le {bound : Nat} (e : Expr) (h : e.longestRun ≤ bound) :
    e.height ≤ e.levels * bound + e.run := by
  cases e with
  | literal | «variable» => simp [height, run]
  | group inner | unary _ _ inner | cardinality _ inner | assign _ inner =>
    have inside : inner.longestRun ≤ bound := (Nat.le_max_right ..).trans h
    exact Nat.succ_le_succ (height_le_of_opened (height_le_of_longestRun_le inner inside) inside)
  | binary op operator left right =>
    obtain ⟨hl, hr⟩ := Nat.max_le.mp ((Nat.le_max_right ..).trans h)
    exact Nat.succ_le_succ (max_le_mul_add (height_le_of_longestRun_le left hl) (height_le_of_longestRun_le right hr))
  | roster elements => exact Nat.succ_le_succ (heightOfAll_le elements ((Nat.le_max_right ..).trans h))
  | comprehension result _ domain filter? =>
    obtain ⟨hr, others⟩ := Nat.max_le.mp ((Nat.le_max_right ..).trans h)
    obtain ⟨hd, hf⟩ := Nat.max_le.mp others
    have inResult := height_le_of_opened (height_le_of_longestRun_le result hr) hr
    have inDomain := height_le_of_opened (height_le_of_longestRun_le domain hd) hd
    exact Nat.succ_le_succ (max_le_mul inResult (max_le_mul inDomain (heightOf?_le filter? hf)))
  | call paren callee arguments =>
    obtain ⟨hc, ha⟩ := Nat.max_le.mp ((Nat.le_max_right ..).trans h)
    have others : heightOfAll arguments ≤ levelsOfAll arguments * bound + 0 := heightOfAll_le arguments ha
    have inside := max_le_mul_add (height_le_of_longestRun_le callee hc) others
    rw [Nat.max_zero] at inside
    exact Nat.succ_le_succ inside

theorem heightOfAll_le {bound : Nat} (es : List Expr) (h : longestRunOfAll es ≤ bound) :
    heightOfAll es ≤ levelsOfAll es * bound := by
  cases es with
  | nil => exact Nat.zero_le _
  | cons e es =>
    obtain ⟨he, hes⟩ := Nat.max_le.mp h
    exact max_le_mul (height_le_of_opened (height_le_of_longestRun_le e he) he) (heightOfAll_le es hes)

theorem heightOf?_le {bound : Nat} (e? : Option Expr) (h : longestRunOf? e? ≤ bound) :
    heightOf? e? ≤ levelsOf? e? * bound := by
  cases e? with
  | none => exact Nat.zero_le _
  | some e => exact height_le_of_opened (height_le_of_longestRun_le e h) h

end

/-! ## Lines have no part in it -/

variable {f : Nat → Nat}

mutual

theorem height_mapLine (e : Expr) : (e.mapLine f).height = e.height := by
  cases e <;> simp only [mapLine, height, height_mapLine, heightOfAll_mapLines, heightOf?_mapLine?]

theorem heightOfAll_mapLines (es : List Expr) : heightOfAll (mapLines f es) = heightOfAll es := by
  cases es <;> simp only [mapLines, heightOfAll, height_mapLine, heightOfAll_mapLines]

theorem heightOf?_mapLine? (e? : Option Expr) : heightOf? (mapLine? f e?) = heightOf? e? := by
  cases e? <;> simp only [mapLine?, heightOf?, height_mapLine]

end

end Expr

/-- The expression that a statement holds. -/
def Statement.value : Statement → Expr
  | .print value | .let _ value | .expression value => value
  | .function _ _ body => body

theorem Statement.value_mapLine (f : Nat → Nat) (statement : Statement) :
    (statement.mapLine f).value = statement.value.mapLine f := by
  cases statement <;> rfl

/-! ## Levels in derivations -/

namespace Grammar

/-- What a derivation is read as opens at most `n` levels. What follows an expression opens no more on top of it. -/
def Symbol.Opens : (s : Symbol) → s.Tree → Nat → Prop
  | .declaration, tree, n => tree.value.levels + 1 ≤ n
  | .item .name, _, _ => True
  | .item .expression, tree, n => tree.levels + 1 ≤ n
  | .phrase _, tree, n => tree.levels ≤ n
  | .operands _, grow, n | .calls, grow, n => ∀ e : Expr, (grow e).levels ≤ max e.levels n
  | .items .name, _, _ | .moreItems .name _, _, _ => True
  | .items .expression, trees, n | .moreItems .expression _, trees, n | .elements, trees, n =>
    Expr.levelsOfAll trees ≤ n
  | .filter, tree?, n => Expr.levelsOf? tree? ≤ n

/-- The depth of a derivation counts all levels that its tree opens. -/
theorem Derivation.opens {s : Symbol} (d : Derivation s) : s.Opens d.tree d.depth := by
  induction d with
  | function _ _ _ _ _ _ body _ _ _ ih => exact ih
  | binding _ _ _ _ _ _ ih | printing _ _ _ ih | statement _ _ ih => exact ih
  | named => trivial
  | assign target _ value iht ihv =>
    simp only [Symbol.Opens, tree, depth] at iht ihv ⊢
    split
    · simp only [Expr.levels]
      omega
    · omega
  | plain _ ih => exact Nat.succ_le_succ ih
  | chain first rest ihf ihr => exact (ihr first.tree).trans (max_le_max ihf (Nat.le_refl _))
  | noOperand | noCall => exact fun e => Nat.le_max_left ..
  | operand _ _ _ _ right rest ihr ihrest =>
    refine fun left => (ihrest _).trans ?_
    simp only [Symbol.Opens, Expr.levels, depth] at ihr ⊢
    omega
  | prefixed _ _ _ _ ih => exact Nat.succ_le_succ ih
  | bare _ ih => exact ih
  | call callee rest ihc ihr => exact (ihr callee.tree).trans (max_le_max ihc (Nat.le_refl _))
  | apply _ arguments closing rest iha ihr =>
    refine fun callee => (ihr _).trans ?_
    simp only [Symbol.Opens, Expr.levels, depth] at iha ⊢
    omega
  | @noItems item => cases item <;> first | trivial | exact Nat.le_refl _
  | @items item first rest ihf ihr =>
    cases item with
    | name => trivial
    | expression => exact max_le_max ihf ihr
  | @lastItem item _ => cases item <;> first | trivial | exact Nat.le_refl _
  | @item item _ _ next rest ihn ihr =>
    cases item with
    | name => trivial
    | expression => exact max_le_max ihn ihr
  | literal | reference | emptyRoster => exact Nat.zero_le _
  | group _ _ _ ih | cardinality _ _ _ ih => exact ih
  | roster _ _ _ _ ihf ihr => exact max_le_max ihf ihr
  | comprehension _ _ _ _ _ _ _ _ ihr _ ihd ihf => exact max_le_max ihr (max_le_max ihd ihf)
  | lastElement | noFilter => exact Nat.le_refl _
  | element _ _ _ ihe ihr => exact max_le_max ihe ihr
  | filtered _ _ ih => exact ih

end Grammar

/-! ## Main theorems -/

/-- In every statement that is read at most `maxNesting` levels are open, on each of which no way down is longer than
a longest run. -/
theorem height_le_levels_mul_run (source : String) (statement : Statement)
    (h : statement ∈ (parseSource source).statements) :
    statement.value.levels < maxNesting ∧
      statement.value.height ≤ maxNesting * statement.value.longestRun := by
  obtain ⟨ds, within, -, trees⟩ :=
    derivations_of_statements (1 + source.toList.count '\n') (textTokens source.toList)
  rw [parseSource_eq, ← trees] at h
  obtain ⟨d, hd, rfl⟩ := List.mem_map.mp h
  have levels : d.tree.value.levels + 1 ≤ maxNesting := d.opens.trans (within d hd)
  have height := Expr.height_le_of_opened (Expr.height_le_of_longestRun_le d.tree.value (Nat.le_refl _)) (Nat.le_refl _)
  exact ⟨levels, height.trans (Nat.mul_le_mul_right _ levels)⟩

/-- Three levels: the roster, its element, and the arguments there. -/
theorem height_le_levels_mul_run_roster :
    ∃ statement ∈ (parseSource "print \x7bf(1)(2) + 1\x7d;").statements,
      statement.value.levels = 2 ∧ statement.value.height = 5 ∧ statement.value.longestRun = 4 ∧
        statement.value.height ≤ maxNesting * statement.value.longestRun := by
  obtain ⟨statement, there, levels, height, run⟩ :
      ∃ statement ∈ (parseSource "print \x7bf(1)(2) + 1\x7d;").statements,
        statement.value.levels = 2 ∧ statement.value.height = 5 ∧ statement.value.longestRun = 4 := by decide +kernel
  exact ⟨statement, there, levels, height, run, (height_le_levels_mul_run _ statement there).2⟩

/-! ## Sums of ones -/

namespace Grammar.Derivation

/-- `1`, as an operand of `+`. -/
def one : Derivation (.phrase Layer.term.operand) :=
  single (.bare (.call (.literal ⟨.number, "1", some (.number 1), 1⟩ (.number 1) rfl rfl) .noCall))

/-- `+ 1` for `n` times. -/
def plusOnes : Nat → Derivation (.operands .term)
  | 0 => .noOperand
  | n + 1 => .operand ⟨.plus, "+", none, 1⟩ .add rfl (by decide) one (plusOnes n)

/-- `print 1 + 1 + … ;` with `n` plus signs. -/
def sumOfOnes (n : Nat) : Derivation .declaration :=
  .printing ⟨⟨.printWord, "print", none, 1⟩, rfl⟩
    (.plain (single (single (single (single (single (.chain one (plusOnes n))))))))
    ⟨⟨.semicolon, ";", none, 1⟩, rfl⟩

/-- Longer sums have no other tokens. -/
theorem tokens_sumOfOnes (n : Nat) : (sumOfOnes n).tokens ⊆ (sumOfOnes 1).tokens := by
  have more : (plusOnes n).tokens ⊆ (sumOfOnes 1).tokens := by
    induction n with
    | zero => exact List.nil_subset _
    | succ n ih => exact List.cons_subset.mpr ⟨by decide, List.cons_subset.mpr ⟨by decide, ih⟩⟩
  have parts : (sumOfOnes n).tokens =
      ⟨.printWord, "print", none, 1⟩ :: one.tokens ++ (plusOnes n).tokens ++ [⟨.semicolon, ";", none, 1⟩] := by
    simp [sumOfOnes, single]
  rw [parts]
  exact List.append_subset.mpr ⟨List.append_subset.mpr ⟨by decide, more⟩, by decide⟩

theorem legible_sumOfOnes (n : Nat) : ∀ token ∈ (sumOfOnes n).tokens, token.Legible := by
  have read : (sumOfOnes 1).tokens = textTokens "print 1 + 1;".toList := by decide +kernel
  intro token ht
  have there := tokens_sumOfOnes n ht
  rw [read] at there
  exact legible_of_mem_textTokens there

theorem depth_sumOfOnes (n : Nat) : (sumOfOnes n).depth = 1 := by
  have more : (plusOnes n).depth = 0 := by
    induction n with
    | zero => rfl
    | succ n ih => simpa [plusOnes, one, single] using ih
  simp [sumOfOnes, one, single, more]

theorem reports_printed_sumOfOnes (n : Nat) : (sumOfOnes n).printed.reports = [] := by
  have more : (plusOnes n).printed.reports = [] := by
    induction n with
    | zero => rfl
    | succ n ih => simpa [plusOnes, one, single] using ih
  simp [sumOfOnes, one, single, more]

theorem height_plusOnes (n : Nat) (first : Expr) (h : 1 ≤ first.height) :
    ((plusOnes n).tree first).height = first.height + n := by
  induction n generalizing first with
  | zero => rfl
  | succ n ih =>
    have node : (Expr.binary .add ⟨.plus, "+", none, 1⟩ first one.tree).height = first.height + 1 :=
      congrArg (· + 1) (Nat.max_eq_left h)
    exact (ih _ (by rw [node]; exact Nat.le_add_left 1 _)).trans (by rw [node, Nat.add_right_comm, Nat.add_assoc])

end Grammar.Derivation

/-- However high a tree is asked for, there is a text without an error that is read as a higher one. -/
theorem exists_height (n : Nat) :
    ∃ source statement, parseSource source = ⟨[statement], []⟩ ∧ n < statement.value.height := by
  have legible : ∀ d ∈ [Derivation.sumOfOnes n], ∀ token ∈ d.tokens, token.Legible := by
    simpa using Derivation.legible_sumOfOnes n
  have read := mapLine_parseSource_programText legible (by simp [Within, Derivation.depth_sumOfOnes])
  rw [map_tree_printed legible, List.flatMap_singleton, Derivation.reports_printed_sumOfOnes] at read
  generalize programText _ = source at read
  obtain ⟨same, none⟩ := Program.mk.inj read
  obtain ⟨statement, rest, one, tree, nil⟩ := List.map_eq_cons_iff.mp same
  rw [List.map_eq_nil_iff.mp nil] at one
  refine ⟨source, statement, ?_, ?_⟩
  · rw [← one, ← List.map_eq_nil_iff.mp none]
  · have height := congrArg (fun s => s.value.height) tree
    simp only [Statement.value_mapLine, Expr.height_mapLine] at height
    have high : (Derivation.sumOfOnes n).tree.value.height = 1 + n :=
      Derivation.height_plusOnes n (.literal (.number 1)) (Nat.le_refl 1)
    rw [height, high]
    omega

/-- The nesting limit is no limit on the height of trees. -/
theorem height_unbounded :
    ¬ ∃ bound, ∀ source, ∀ statement ∈ (parseSource source).statements, statement.value.height ≤ bound := by
  rintro ⟨bound, h⟩
  obtain ⟨source, statement, read, high⟩ := exists_height bound
  exact absurd (h source statement (by simp [read])) (Nat.not_le.mpr high)

end SetScript
