import Mathlib.Data.List.Basic
import SetScript.Proofs.Number.Count
import SetScript.Proofs.Value.Congruence
import SetScript.Proofs.Value.Order
/-!
# Counting elements

The size of a set is the length of a list that was filled without two same values, and it is the number that bars around
an expression give (`Value.counts_length`). So these numbers obey the laws of counting (`cardinality_laws`): what two
sets share counts once in their union, a part has no more elements than the whole, and a part with as many elements is
the whole. The order in which a set was filled does not count, nor how often an element was put in.
-/

namespace SetScript

namespace Members

variable {s t : Members}

/-- Two sets share the same elements in either order, though each order takes them from another set. -/
theorem WellFormed.inter_comm (hs : s.WellFormed) (ht : t.WellFormed) : (s.inter t).same (t.inter s) = true := by
  rw [(hs.inter t).same_iff_contains (ht.inter s)]
  intro v hv
  rw [hs.contains_inter ht hv, ht.contains_inter hs hv]
  exact and_comm

theorem WellFormed.length_union_add_length_inter (hs : s.WellFormed) (ht : t.WellFormed) :
    (s.union t).length + (s.inter t).length = s.length + t.length := by
  -- Taken from `t`, the shared elements are what the union leaves out of `t`.
  have shared : (s.inter t).length = (t.elements.filter fun v => s.elements.any v.same).length := by
    rw [(ht.inter s).length_congr (hs.inter_comm ht), length, ht.elements_inter hs]
  have parts := t.elements.length_eq_length_filter_add fun v => s.elements.any v.same
  rw [shared, length, hs.elements_union ht, List.length_append, length, length]
  omega

theorem WellFormed.length_le_of_subset (hs : s.WellFormed) (ht : t.WellFormed) (part : s.subset t = true) :
    s.length ≤ t.length := by
  rw [subset, List.all_eq_true] at part
  have exclusive := hs.exclusive ht fun v hv => (hs.elements v hv).fair
  apply length_le_of_partner _ exclusive
  intro v hv
  exact (ht.contains_iff v).mp (part v hv)

theorem WellFormed.same_of_subset_of_length (ht : t.WellFormed) (part : s.subset t = true)
    (size : s.length = t.length) : s.same t = true := by
  rw [subset, List.all_eq_true] at part
  apply ht.same_iff.mpr
  exact ⟨size, fun v hv => (ht.contains_iff v).mp (part v hv)⟩

/-- The elements of a set, collected once more, are the same set. -/
theorem WellFormed.ofList_same (hs : s.WellFormed) {vs : List Value} (h : ∀ v, v ∈ vs ↔ v ∈ s.elements) :
    (ofList vs).same s = true := by
  have values : ∀ v ∈ vs, v.WellFormed := fun v hv => hs.elements v ((h v).mp hv)
  rw [(wellFormed_ofList values).same_iff_contains hs]
  intro w hw
  rw [contains_ofList values hw, hs.contains_iff]
  simp only [h]

end Members

/-! ## What bars around an expression give -/

namespace Value

/-- Bars around an expression of this value give the number `x`. -/
def CountsAs (v : Value) (x : Float) : Prop :=
  ∀ (pipe : Token) (e : Expr) (env after : Environment), e.eval env = (.ok v, after) →
    (Expr.cardinality pipe e).eval env = (.ok (.number x), after)

/-- Bars around an expression of this value give the natural number `n`, up to the last one that doubles tell from its
neighbours; beyond it they come to a fault. -/
structure Counts (v : Value) (n : Nat) : Prop where
  number : n ≤ 2 ^ 53 - 1 → ∃ x, v.CountsAs x ∧ Number.IsNatural x n
  fault : 2 ^ 53 - 1 < n → ∀ (pipe : Token) (e : Expr) (env after : Environment), e.eval env = (.ok v, after) →
    (Expr.cardinality pipe e).eval env =
      (.error ⟨.unsupported s!"Count {n} is too large to represent exactly.", pipe.line⟩, after)

variable {s : Members} {x : Float} {n : Nat}

theorem eval_cardinality_set {e : Expr} {env after : Environment} (he : e.eval env = (.ok (.set s), after))
    (pipe : Token) : (Expr.cardinality pipe e).eval env = (countValue s.length pipe.line, after) := by
  rw [Expr.eval, Eval.bind_of_ok he]
  rfl

theorem counts_length (s : Members) : (Value.set s).Counts s.length where
  number few := by
    obtain ⟨x, count, natural⟩ := Number.isNatural_ofCount? few
    refine ⟨x, fun pipe e env after he => ?_, natural⟩
    rw [eval_cardinality_set he, countValue, count]
  fault many pipe e env after he := by
    rw [eval_cardinality_set he, countValue, Number.ofCount?_eq_none many]

/-- There is an expression of every value: a variable that is bound to it. -/
theorem exists_eval (v : Value) : ∃ (e : Expr) (env : Environment), e.eval env = (.ok v, env) := by
  refine ⟨.variable (.identifier "x" 1), .define ⟨[]⟩ "x" v, ?_⟩
  rw [Expr.eval, Eval.read, Environment.get, Environment.get?_define]
  rfl

theorem countsAs_iff : (Value.set s).CountsAs x ↔ Number.ofCount? s.length = some x := by
  constructor
  · intro h
    obtain ⟨e, env, he⟩ := exists_eval (.set s)
    have given := h ⟨.pipe, "|", none, 1⟩ e env env he
    rw [eval_cardinality_set he, countValue] at given
    cases count : Number.ofCount? s.length with
    | none => rw [count] at given; cases given
    | some y => rw [count] at given; cases given; rfl
  · intro count pipe e env after he
    rw [eval_cardinality_set he, countValue, count]

/-- What bars around a set give is the number of its elements. -/
theorem CountsAs.isNatural (h : (Value.set s).CountsAs x) : Number.IsNatural x s.length := by
  rw [countsAs_iff] at h
  by_cases few : s.length ≤ 2 ^ 53 - 1
  · obtain ⟨y, count, natural⟩ := Number.isNatural_ofCount? few
    obtain rfl : x = y := Option.some.inj (h.symm.trans count)
    exact natural
  · rw [Number.ofCount?_eq_none (Nat.lt_of_not_le few)] at h
    cases h

/-- A natural number that a double is exactly is given by the bars, where a set has as many elements. -/
theorem Counts.countsAs (h : (Value.set s).Counts n) (few : n ≤ 2 ^ 53 - 1) (natural : Number.IsNatural x n) :
    (Value.set s).CountsAs x := by
  obtain ⟨y, count, natural'⟩ := h.number few
  rwa [natural.eq natural']

end Value

/-! ## The laws -/

/-- Two sets have as many elements as their union and their intersection have together. If one set is part of the other
it has at most as many elements, and if it has as many the two sets are equal. The number of elements stays when they
are collected once more, in any order and each any number of times. It is the number that bars around an expression
give, so all of this is true of what the bars give, with the order and the equality that the program has for numbers. -/
theorem cardinality_laws {a b : Members} (ha : a.WellFormed) (hb : b.WellFormed) (line : Nat) :
    ((Value.set a).Counts a.length ∧ (Value.set b).Counts b.length) ∧
      (∃ u i : Members, BinaryOp.union.apply (.set a) (.set b) line = .ok (.set u) ∧
        BinaryOp.intersect.apply (.set a) (.set b) line = .ok (.set i) ∧
        u.length + i.length = a.length + b.length ∧
        ∀ x y z w, (Value.set u).CountsAs x → (Value.set i).CountsAs y → (Value.set a).CountsAs z →
          (Value.set b).CountsAs w → ∃ n m k l, Number.IsNatural x n ∧ Number.IsNatural y m ∧
            Number.IsNatural z k ∧ Number.IsNatural w l ∧ n + m = k + l) ∧
      (BinaryOp.subseteq.apply (.set a) (.set b) line = .ok (.bool true) →
        (a.length ≤ b.length ∧
          (a.length = b.length → BinaryOp.equal.apply (.set a) (.set b) line = .ok (.bool true))) ∧
        ∀ x y, (Value.set a).CountsAs x → (Value.set b).CountsAs y →
          BinaryOp.lessEqual.apply (.number x) (.number y) line = .ok (.bool true) ∧
            (BinaryOp.equal.apply (.number x) (.number y) line = .ok (.bool true) →
              BinaryOp.equal.apply (.set a) (.set b) line = .ok (.bool true))) ∧
      ∀ vs : List Value, (∀ v, v ∈ vs ↔ v ∈ a.elements) →
        (Members.ofList vs).length = a.length ∧
          ∀ x, (Value.set (.ofList vs)).CountsAs x ↔ (Value.set a).CountsAs x := by
  have sum := ha.length_union_add_length_inter hb
  refine ⟨⟨Value.counts_length a, Value.counts_length b⟩, ⟨a.union b, a.inter b, rfl, rfl, sum, ?_⟩, fun part => ?_,
    fun vs h => ?_⟩
  · intro x y z w hx hy hz hw
    exact ⟨_, _, _, _, hx.isNatural, hy.isNatural, hz.isNatural, hw.isNatural, sum⟩
  · have inclusion : BinaryOp.subseteq.apply (.set a) (.set b) line = .ok (.bool (a.subset b)) := rfl
    have part : a.subset b = true := by simpa [inclusion] using part
    have equal (size : a.length = b.length) : BinaryOp.equal.apply (.set a) (.set b) line = .ok (.bool true) := by
      have same : (Value.set a).same (.set b) = true := hb.same_of_subset_of_length part size
      rw [BinaryOp.apply, same]
    have atMost := ha.length_le_of_subset hb part
    refine ⟨⟨atMost, equal⟩, fun x y hx hy => ⟨?_, fun hxy => equal ?_⟩⟩
    · exact congrArg (Except.ok ∘ Value.bool) ((hx.isNatural.le_iff hy.isNatural).mpr atMost)
    · have same : Number.same x y = true := by simpa [BinaryOp.apply, Value.same] using hxy
      exact (hx.isNatural.same_iff hy.isNatural).mp same
  · have size := ha.length_congr (ha.ofList_same h)
    exact ⟨size, fun x => by rw [Value.countsAs_iff, Value.countsAs_iff, size]⟩

/-- A set of three elements and one of two, which share a zero and a set of two elements in another order. -/
theorem cardinality_laws_zeros :
    let inner : Members := .ofList [.bool true, .string "s"]
    let inner' : Members := .ofList [.string "s", .bool true]
    let a : Members := .ofList [.number 0.0, .set inner]
    let b : Members := .ofList [.set inner', .nil, .number (-0.0)]
    a.WellFormed ∧ b.WellFormed ∧ (Value.set a).CountsAs 2 ∧ (Value.set b).CountsAs 3 ∧
      (∃ u i : Members, BinaryOp.union.apply (.set a) (.set b) 1 = .ok (.set u) ∧
        BinaryOp.intersect.apply (.set a) (.set b) 1 = .ok (.set i) ∧ u.length + i.length = 5) ∧
      BinaryOp.subseteq.apply (.set a) (.set b) 1 = .ok (.bool true) ∧
      BinaryOp.lessEqual.apply (.number 2) (.number 3) 1 = .ok (.bool true) ∧
      (Value.set (.ofList [.set inner, .number 0.0, .set inner])).CountsAs 2 := by
  intro inner inner' a b
  have hi : inner.WellFormed := Members.wellFormed_ofList (by simp)
  have hi' : inner'.WellFormed := Members.wellFormed_ofList (by simp)
  have ha : a.WellFormed := Members.wellFormed_ofList (by simp [Value.wellFormed_set.mpr hi])
  have hb : b.WellFormed := Members.wellFormed_ofList (by simp [Value.wellFormed_set.mpr hi'])
  have size : a.length = 2 := by decide +kernel
  have size' : b.length = 3 := by decide +kernel
  have two : Number.IsNatural 2 2 := by decide +kernel
  have three : Number.IsNatural 3 3 := by decide +kernel
  have subset : a.subset b = true := by decide +kernel
  have part : BinaryOp.subseteq.apply (.set a) (.set b) 1 = .ok (.bool true) :=
    congrArg (Except.ok ∘ Value.bool) subset
  obtain ⟨⟨counts, counts'⟩, ⟨u, i, union, inter, sum, -⟩, order, again⟩ := cardinality_laws ha hb 1
  rw [size] at counts
  rw [size'] at counts'
  have count : (Value.set a).CountsAs 2 := counts.countsAs (by decide) two
  have count' : (Value.set b).CountsAs 3 := counts'.countsAs (by decide) three
  refine ⟨ha, hb, count, count', ⟨u, i, union, inter, ?_⟩, part, ((order part).2 2 3 count count').1, ?_⟩
  · rw [sum, size, size']
  · refine ((again _ fun v => ?_).2 2).mpr count
    have elements : a.elements = [.number 0.0, .set inner] := rfl
    simp only [elements, List.mem_cons, List.not_mem_nil, or_false]
    grind

end SetScript
