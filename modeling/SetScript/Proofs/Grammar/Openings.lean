import Mathlib.Order.MinMax
import SetScript.Proofs.Grammar.Reading
/-!
# Levels

A declaration has its expression on level 1. Each group, operand between bars, element, argument, right side of `=` and
operand of a prefix operator in an expression, and each of the three parts of a comprehension, stands one level deeper.
`Derivation.openings` lists all of these with their levels. On every level up to the depth of the derivation there is
one (`Derivation.exists_opening_iff`), and `Derivation.overrun?` is the first one beyond the nesting limit.
-/

namespace SetScript.Grammar

/-- A part of a derivation that opens a level: its level, and the stream from its first token on. -/
structure Opening where
  level : Nat
  stream : List Token

namespace Derivation

/-- The parts that open a level, in the order of their first tokens, in a derivation that stands on `level` and in front
of `rest`. These are the operands of prefix operators and the expressions, which stand in declarations, behind `=`, in
parentheses, bars and braces, and in argument lists. -/
@[simp] def openings : {s : Symbol} → Derivation s → (level : Nat) → (rest : List Token) → List Opening
  | _, function _ _ _ _ _ _ body semicolon, level, rest => body.openings level (semicolon.1 :: rest)
  | _, binding _ _ _ value semicolon, level, rest => value.openings level (semicolon.1 :: rest)
  | _, printing _ value semicolon, level, rest => value.openings level (semicolon.1 :: rest)
  | _, statement value semicolon, level, rest => value.openings level (semicolon.1 :: rest)
  | _, assign target sign value, level, rest =>
    ⟨level + 1, target.tokens ++ sign.1 :: (value.tokens ++ rest)⟩ ::
      (target.openings (level + 1) (sign.1 :: (value.tokens ++ rest)) ++ value.openings (level + 1) rest)
  | _, plain e, level, rest => ⟨level + 1, e.tokens ++ rest⟩ :: e.openings (level + 1) rest
  | _, chain first more, level, rest => first.openings level (more.tokens ++ rest) ++ more.openings level rest
  | _, operand _ _ _ _ right more, level, rest => right.openings level (more.tokens ++ rest) ++ more.openings level rest
  | _, prefixed _ _ _ e, level, rest => ⟨level + 1, e.tokens ++ rest⟩ :: e.openings (level + 1) rest
  | _, bare e, level, rest => e.openings level rest
  | _, call callee more, level, rest => callee.openings level (more.tokens ++ rest) ++ more.openings level rest
  | _, apply _ arguments closing more, level, rest =>
    arguments.openings level (closing.1 :: (more.tokens ++ rest)) ++ more.openings level rest
  | _, items first more, level, rest => first.openings level (more.tokens ++ rest) ++ more.openings level rest
  | _, item _ next more, level, rest => next.openings level (more.tokens ++ rest) ++ more.openings level rest
  | _, group _ e closing, level, rest => e.openings level (closing.1 :: rest)
  | _, cardinality _ e closing, level, rest => e.openings level (closing.1 :: rest)
  | _, roster _ first more closing, level, rest =>
    first.openings level (more.tokens ++ closing.1 :: rest) ++ more.openings level (closing.1 :: rest)
  | _, comprehension _ result bar bound word domain filter closing, level, rest =>
    result.openings level
        (bar.1 :: (bound.tokens ++ word.1 :: (domain.tokens ++ (filter.tokens ++ closing.1 :: rest)))) ++
      (domain.openings level (filter.tokens ++ closing.1 :: rest) ++ filter.openings level (closing.1 :: rest))
  | _, element _ e more, level, rest => e.openings level (more.tokens ++ rest) ++ more.openings level rest
  | _, filtered _ e, level, rest => e.openings level rest
  | _, named _, _, _ | _, noOperand, _, _ | _, noCall, _, _ | _, noItems, _, _ | _, lastItem, _, _
  | _, literal _ _ _ _, _, _ | _, reference _, _, _ | _, emptyRoster _ _, _, _ | _, lastElement, _, _
  | _, noFilter, _, _ => []

variable {s : Symbol}

/-- There are openings on each level up to the depth of a derivation, and on no other. -/
theorem exists_opening_iff (d : Derivation s) (level n : Nat) (rest : List Token) :
    (∃ opening ∈ d.openings level rest, opening.level = level + n + 1) ↔ n < d.depth := by
  -- What an expression opens is the first of its levels, and the openings inside start on the next one.
  have opened : ∀ {stream : List Token} {inside : List Opening} {level n depth : Nat},
      (∀ m, (∃ opening ∈ inside, opening.level = level + 1 + m + 1) ↔ m < depth) →
        ((∃ opening ∈ (⟨level + 1, stream⟩ : Opening) :: inside, opening.level = level + n + 1) ↔ n < depth + 1) := by
    intro stream inside level n depth h
    simp only [List.mem_cons, or_and_right, exists_or, exists_eq_left]
    cases n with
    | zero => simp
    | succ m =>
      rw [show level + (m + 1) + 1 = level + 1 + m + 1 by omega, h m, Nat.add_lt_add_iff_right]
      exact or_iff_right (by omega)
  induction d generalizing level n rest with
  | function _ _ _ _ _ _ body _ _ _ ih => exact ih ..
  | binding _ _ _ value _ _ ih | printing _ value _ ih | statement value _ ih => exact ih ..
  | bare e ih | group _ e _ ih | cardinality _ e _ ih | filtered _ e ih => exact ih ..
  | plain e ih | prefixed _ _ _ e ih => exact opened fun m => ih ..
  | assign target sign value iht ihv =>
    refine opened fun m => ?_
    simp only [List.mem_append, or_and_right, exists_or, iht, ihv, lt_max_iff]
  | chain first more ihf ihm | operand _ _ _ _ first more ihf ihm | call first more ihf ihm
  | apply _ first _ more ihf ihm | items first more ihf ihm | item _ first more ihf ihm | roster _ first more _ ihf ihm
  | element _ first more ihf ihm =>
    simp only [openings, depth, List.mem_append, or_and_right, exists_or, ihf, ihm, lt_max_iff]
  | comprehension _ result _ _ _ domain filter _ ihr _ ihd ihf =>
    simp only [openings, depth, List.mem_append, or_and_right, exists_or, ihr, ihd, ihf, lt_max_iff]
  | _ => simp

theorem forall_level_le_iff (d : Derivation s) (level n : Nat) (rest : List Token) :
    (∀ opening ∈ d.openings level rest, opening.level ≤ level + n) ↔ Within n d := by
  constructor
  · intro all
    refine Nat.le_of_not_lt fun deep => ?_
    obtain ⟨opening, ho, hl⟩ := (d.exists_opening_iff level n rest).mpr deep
    have least := all opening ho
    omega
  · intro within opening ho
    refine Nat.le_of_not_lt fun beyond => ?_
    obtain ⟨m, hm⟩ := Nat.exists_eq_add_of_lt beyond
    have deep := (d.exists_opening_iff level (n + m) rest).mp ⟨opening, ho, by omega⟩
    have shallow : d.depth ≤ n := within
    omega

end Derivation

/-! ## The order of openings -/

/-- Openings in the order in which they stand in a stream, all of them in front of `rest`. -/
structure Opening.InOrder (stream rest : List Token) (openings : List Opening) : Prop where
  ordered : openings.Pairwise fun first second => second.stream <:+ first.stream
  within : ∀ opening ∈ openings, rest <:+ opening.stream ∧ opening.stream <:+ stream

namespace Opening.InOrder

variable {stream stream' between rest rest' : List Token} {openings openings' : List Opening}

theorem nil : InOrder stream rest [] := ⟨.nil, List.forall_mem_nil _⟩

theorem widen (h : InOrder stream rest openings) (front : stream <:+ stream') (back : rest' <:+ rest) :
    InOrder stream' rest' openings :=
  ⟨h.ordered, fun opening ho => ⟨back.trans (h.within opening ho).1, (h.within opening ho).2.trans front⟩⟩

/-- What begins with the stream comes first. -/
theorem cons (h : InOrder stream rest openings) (left : rest <:+ stream) (level : Nat) :
    InOrder stream rest (⟨level, stream⟩ :: openings) where
  ordered := List.pairwise_cons.mpr ⟨fun opening ho => (h.within opening ho).2, h.ordered⟩
  within := List.forall_mem_cons.mpr ⟨⟨left, List.suffix_refl _⟩, h.within⟩

theorem append (h : InOrder stream between openings) (h' : InOrder between rest openings')
    (front : between <:+ stream) (back : rest <:+ between) : InOrder stream rest (openings ++ openings') where
  ordered := List.pairwise_append.mpr ⟨h.ordered, h'.ordered, fun first hf second hs =>
    (h'.within second hs).2.trans (h.within first hf).1⟩
  within := List.forall_mem_append.mpr ⟨(h.widen (List.suffix_refl _) back).within,
    (h'.widen front (List.suffix_refl _)).within⟩

end Opening.InOrder

namespace Derivation

variable {s : Symbol}

open Opening (InOrder)

/-- The openings are listed in the order of their first tokens. -/
theorem openings_inOrder (d : Derivation s) (level : Nat) (rest : List Token) :
    InOrder (d.tokens ++ rest) rest (d.openings level rest) := by
  have same : ∀ tokens : List Token, tokens <:+ tokens := List.suffix_refl
  have follow : ∀ {first more back : List Token} {openings openings' : List Opening},
      InOrder (first ++ (more ++ back)) (more ++ back) openings → InOrder (more ++ back) back openings' →
        InOrder (first ++ (more ++ back)) back (openings ++ openings') :=
    fun h h' => h.append h' (List.suffix_append ..) (List.suffix_append ..)
  induction d generalizing level rest with
  | function word name opening parameters closing sign body semicolon _ _ ih =>
    exact (ih ..).widen ⟨word.1 :: name.tokens ++ opening.1 :: parameters.tokens ++ [closing.1, sign.1], by simp⟩
      (List.suffix_cons ..)
  | binding word name sign value semicolon _ ih =>
    exact (ih ..).widen ⟨word.1 :: name.tokens ++ [sign.1], by simp⟩ (List.suffix_cons ..)
  | printing word value semicolon ih => exact (ih ..).widen ⟨[word.1], by simp⟩ (List.suffix_cons ..)
  | statement value semicolon ih => exact (ih ..).widen ⟨[], by simp⟩ (List.suffix_cons ..)
  | assign target sign value iht ihv =>
    rw [tokens, List.append_assoc, List.cons_append]
    refine InOrder.cons ?_ ⟨target.tokens ++ sign.1 :: value.tokens, by simp⟩ (level + 1)
    exact (iht ..).append ((ihv ..).widen (List.suffix_cons ..) (same _)) (List.suffix_append ..)
      ⟨sign.1 :: value.tokens, rfl⟩
  | plain e ih => exact (ih ..).cons (List.suffix_append ..) (level + 1)
  | bare e ih => exact ih ..
  | prefixed sign _ _ e ih =>
    exact ((ih ..).cons (List.suffix_append ..) (level + 1)).widen (List.suffix_cons ..) (same _)
  | filtered comma e ih => exact (ih ..).widen (List.suffix_cons ..) (same _)
  | chain first more ihf ihm | call first more ihf ihm | items first more ihf ihm =>
    rw [tokens, List.append_assoc]
    exact follow (ihf ..) (ihm ..)
  | operand sign _ _ _ first more ihf ihm | item sign first more ihf ihm | element sign first more ihf ihm =>
    rw [tokens, List.cons_append, List.cons_append, List.append_assoc]
    exact (follow (ihf ..) (ihm ..)).widen (List.suffix_cons ..) (same _)
  | group opening e closing ih | cardinality opening e closing ih =>
    exact (ih ..).widen ⟨[opening.1], by simp⟩ (List.suffix_cons ..)
  | apply opening arguments closing more iha ihm =>
    have behind := (ihm level rest).widen (List.suffix_cons closing.1 _) (same _)
    exact ((iha ..).append behind (List.suffix_append ..) ⟨closing.1 :: more.tokens, rfl⟩).widen
      ⟨[opening.1], by simp⟩ (same _)
  | roster opening first more closing ihf ihm =>
    exact (follow (ihf ..) (ihm ..)).widen ⟨[opening.1], by simp⟩ (List.suffix_cons ..)
  | comprehension opening result bar bound word domain filter closing ihr _ ihd ihf =>
    have behind : InOrder (bar.1 :: (bound.tokens ++ word.1 :: (domain.tokens ++ (filter.tokens ++ closing.1 :: rest))))
        (closing.1 :: rest) _ :=
      (follow (ihd level _) (ihf level _)).widen ⟨bar.1 :: bound.tokens ++ [word.1], by simp⟩ (same _)
    exact ((ihr ..).append behind (List.suffix_append ..)
      ⟨bar.1 :: bound.tokens ++ word.1 :: domain.tokens ++ filter.tokens, by simp⟩).widen
      ⟨[opening.1], by simp⟩ (List.suffix_cons ..)
  | _ => exact .nil

/-! ## The first opening beyond the limit -/

/-- The first part that opens a level beyond the nesting limit. -/
def overrun? (d : Derivation s) (level : Nat) (rest : List Token) : Option Opening :=
  (d.openings level rest).find? (·.level = maxNesting + 1)

theorem overrun?_eq_none_iff (d : Derivation s) {level n : Nat} (h : level + n = maxNesting) (rest : List Token) :
    d.overrun? level rest = none ↔ Within n d := by
  rw [overrun?, List.find?_eq_none, Within, ← Nat.not_lt, ← d.exists_opening_iff level n rest, h]
  simp

/-- It is on the first level beyond the limit, and whatever else is there comes later. -/
theorem overrun?_first {d : Derivation s} {level : Nat} {rest : List Token} {deep : Opening}
    (h : d.overrun? level rest = some deep) :
    deep ∈ d.openings level rest ∧ deep.level = maxNesting + 1 ∧
      ∀ other ∈ d.openings level rest, other.level = maxNesting + 1 → other.stream <:+ deep.stream := by
  obtain ⟨hdeep, earlier, later, split, hearlier⟩ := List.find?_eq_some_iff_append.mp h
  have ordered := (d.openings_inOrder level rest).ordered
  rw [split] at ordered ⊢
  refine ⟨by simp, by simpa using hdeep, fun other ho hl => ?_⟩
  rcases List.mem_append.mp ho with before | ho
  · simpa [hl] using hearlier other before
  · rcases List.mem_cons.mp ho with rfl | behind
    · exact List.suffix_refl _
    · exact List.rel_of_pairwise_cons (List.pairwise_append.mp ordered).2.1 behind

/-- What opens a level in a declaration is not empty: the `;` stands behind it. -/
theorem stream_ne_nil {d : Derivation .declaration} {level : Nat} {rest : List Token} {opening : Opening}
    (h : opening ∈ d.openings level rest) : opening.stream ≠ [] := by
  cases d with
  | function _ _ _ _ _ _ value _ | binding _ _ _ value _ | printing _ value _ | statement value _ =>
    exact ((value.openings_inOrder level _).within opening h).1.ne_nil (List.cons_ne_nil _ _)

end Derivation

end SetScript.Grammar
