import SetScript.Proofs.Evaluation.Computation
import SetScript.Proofs.Value.Membership
/-!
# Same values go alike

Same values can still differ, in the order and the choice of elements at any depth. No operator that is about sets or
equality shows it: on same operands it has same results or the same fault (`BinaryOp.apply_same`). Nor does truth, the
number of elements or membership in a set. So a set may stand in a set (`operators_respect_same`).
-/

namespace SetScript

/-! ## Equality and sets -/

namespace Value

variable {a a' b b' : Value}

theorem WellFormed.same_congr (ha : a.WellFormed) (ha' : a'.WellFormed) (hb : b.WellFormed) (hb' : b'.WellFormed)
    (haa : a.same a' = true) (hbb : b.same b' = true) : a.same b = a'.same b' := by
  have back : a'.same a = true := ha.symm ha' haa
  have back' : b'.same b = true := hb.symm hb' hbb
  refine Bool.eq_iff_iff.mpr ⟨fun h => ?_, fun h => ?_⟩
  · exact ha'.trans hb hb' (ha'.trans ha hb back h) hbb
  · exact ha.trans hb' hb (ha.trans ha' hb' haa h) back'

/-- Of two same values both are sets, or neither is one and the place for a set takes neither. -/
theorem expectSet_cases (h : a.same a' = true) :
    (∃ s s' : Members, a = .set s ∧ a' = .set s' ∧ s.same s' = true) ∨
      ∀ details line, a.expectSet details line = .error ⟨.typeMismatch details, line⟩ ∧
        a'.expectSet details line = .error ⟨.typeMismatch details, line⟩ := by
  cases a with
  | set s =>
    cases a' with
    | set s' => exact .inl ⟨s, s', rfl, rfl, h⟩
    | _ => cases h
  | _ =>
    cases a' with
    | set s' => cases h
    | _ => exact .inr fun _ _ => ⟨rfl, rfl⟩

end Value

namespace Members

variable {s s' t t' : Members} {v v' : Value}

theorem WellFormed.contains_congr (hs : s.WellFormed) (hs' : s'.WellFormed) (hv : v.WellFormed) (hv' : v'.WellFormed)
    (hss : s.same s' = true) (hvv : v.same v' = true) : s.contains v = s'.contains v' := by
  have alike := (hs.same_iff_contains hs').mp hss
  have back : v'.same v = true := hv.symm hv' hvv
  refine Bool.eq_iff_iff.mpr ((alike v hv).trans ⟨fun h => ?_, fun h => ?_⟩)
  · exact hs'.contains_of_same hv hv' hvv h
  · exact hs'.contains_of_same hv' hv back h

theorem WellFormed.union_congr (hs : s.WellFormed) (hs' : s'.WellFormed) (ht : t.WellFormed) (ht' : t'.WellFormed)
    (hss : s.same s' = true) (htt : t.same t' = true) : (s.union t).same (s'.union t') = true := by
  have left := (hs.same_iff_contains hs').mp hss
  have right := (ht.same_iff_contains ht').mp htt
  rw [(hs.union ht).same_iff_contains (hs'.union ht')]
  intro v hv
  rw [hs.contains_union ht hv, hs'.contains_union ht' hv, left v hv, right v hv]

theorem WellFormed.inter_congr (hs : s.WellFormed) (hs' : s'.WellFormed) (ht : t.WellFormed) (ht' : t'.WellFormed)
    (hss : s.same s' = true) (htt : t.same t' = true) : (s.inter t).same (s'.inter t') = true := by
  have left := (hs.same_iff_contains hs').mp hss
  have right := (ht.same_iff_contains ht').mp htt
  rw [(hs.inter t).same_iff_contains (hs'.inter t')]
  intro v hv
  rw [hs.contains_inter ht hv, hs'.contains_inter ht' hv, left v hv, right v hv]

theorem WellFormed.subset_congr (hs : s.WellFormed) (hs' : s'.WellFormed) (ht : t.WellFormed) (ht' : t'.WellFormed)
    (hss : s.same s' = true) (htt : t.same t' = true) : s.subset t = s'.subset t' := by
  have left := (hs.same_iff_contains hs').mp hss
  have right := (ht.same_iff_contains ht').mp htt
  rw [Bool.eq_iff_iff, hs.subset_iff_contains ht, hs'.subset_iff_contains ht']
  exact forall₂_congr fun v hv => by rw [left v hv, right v hv]

theorem WellFormed.insert_congr (hs : s.WellFormed) (hv : v.WellFormed) (hv' : v'.WellFormed)
    (hvv : v.same v' = true) :
    (s.insert v).1 = (s.insert v').1 ∧ (s.insert v).2.same (s.insert v').2 = true := by
  have known := hs.contains_congr hs hv hv' (Value.wellFormed_set.mpr hs).refl hvv
  constructor
  · unfold Members.insert
    rw [known]
    split <;> rfl
  · rw [(hs.insert hv).same_iff_contains (hs.insert hv')]
    intro w hw
    have same := hw.same_congr hw hv hv' hw.refl hvv
    rw [hs.contains_insert hv hw, hs.contains_insert hv' hw, same]

theorem WellFormed.length_congr (hs' : s'.WellFormed) (hss : s.same s' = true) : s.length = s'.length :=
  (hs'.same_iff.mp hss).1

end Members

/-! ## Operators -/

/-- Both results are there and the same, or both are one fault. -/
def SameOutcome : Except Fault Value → Except Fault Value → Prop
  | .ok v, .ok w => v.same w = true
  | .error fault, .error fault' => fault = fault'
  | _, _ => False

section Operators

variable {a a' b b' : Value}

theorem sameOutcome_bool {x y : Bool} (h : x = y) : SameOutcome (.ok (.bool x)) (.ok (.bool y)) := by
  simp [SameOutcome, Value.same, h]

theorem BinaryOp.applySetAlgebra_same {op : BinaryOp} (hop : op ∈ [BinaryOp.union, .intersect, .subseteq])
    (ha : a.WellFormed) (ha' : a'.WellFormed) (hb : b.WellFormed) (hb' : b'.WellFormed) (haa : a.same a' = true)
    (hbb : b.same b' = true) (line : Nat) :
    SameOutcome (op.applySetAlgebra a b line) (op.applySetAlgebra a' b' line) := by
  unfold applySetAlgebra
  rcases Value.expectSet_cases haa with ⟨s, s', rfl, rfl, hss⟩ | neither
  · rcases Value.expectSet_cases hbb with ⟨t, t', rfl, rfl, htt⟩ | neither
    · rw [Value.wellFormed_set] at ha ha' hb hb'
      simp only [List.mem_cons, List.not_mem_nil, or_false] at hop
      rcases hop with rfl | rfl | rfl
      · exact ha.union_congr ha' hb hb' hss htt
      · exact ha.inter_congr ha' hb hb' hss htt
      · exact sameOutcome_bool (ha.subset_congr ha' hb hb' hss htt)
    · rw [(neither _ _).1, (neither _ _).2]
      exact rfl
  · rw [(neither _ _).1, (neither _ _).2]
    exact rfl

theorem BinaryOp.applyMembership_same (ha : a.WellFormed) (ha' : a'.WellFormed) (hb : b.WellFormed)
    (hb' : b'.WellFormed) (haa : a.same a' = true) (hbb : b.same b' = true) (line : Nat) :
    SameOutcome (applyMembership a b line) (applyMembership a' b' line) := by
  unfold applyMembership
  rcases Value.expectSet_cases hbb with ⟨t, t', rfl, rfl, htt⟩ | neither
  · rw [Value.wellFormed_set] at hb hb'
    exact sameOutcome_bool (hb.contains_congr hb' ha ha' htt haa)
  · rw [(neither _ _).1, (neither _ _).2]
    exact rfl

/-- The operators of equality and of sets do not tell same operands apart. -/
theorem BinaryOp.apply_same {op : BinaryOp}
    (hop : op ∈ [BinaryOp.equal, .notEqual, .union, .intersect, .subseteq, .member]) (ha : a.WellFormed)
    (ha' : a'.WellFormed) (hb : b.WellFormed) (hb' : b'.WellFormed) (haa : a.same a' = true)
    (hbb : b.same b' = true) (line : Nat) : SameOutcome (op.apply a b line) (op.apply a' b' line) := by
  cases op with
  | equal => exact sameOutcome_bool (ha.same_congr ha' hb hb' haa hbb)
  | notEqual => exact sameOutcome_bool (congrArg not (ha.same_congr ha' hb hb' haa hbb))
  | union | intersect | subseteq =>
    rw [apply, apply]
    exact applySetAlgebra_same (by decide) ha ha' hb hb' haa hbb line
  | member => exact applyMembership_same ha ha' hb hb' haa hbb line
  | _ => exact absurd hop (by decide)

/-! ## Truth and number of elements -/

theorem Value.isTruthy_same (ha' : a'.WellFormed) (haa : a.same a' = true) : a.isTruthy = a'.isTruthy := by
  cases a with
  | set s =>
    cases a' with
    | set s' =>
      have size : s.elements.length = s'.elements.length := (wellFormed_set.mp ha').length_congr haa
      have empty : s.elements.isEmpty = s'.elements.isEmpty := by
        rw [Bool.eq_iff_iff, List.isEmpty_iff_length_eq_zero, List.isEmpty_iff_length_eq_zero, size]
      exact congrArg not empty
    | _ => cases haa
  | _ => cases a' <;> simp_all [isTruthy, same]

theorem Expr.eval_cardinality_same {e e' : Expr} {env env' after after' : Environment}
    (he : e.eval env = (.ok a, after)) (he' : e'.eval env' = (.ok a', after')) (ha' : a'.WellFormed)
    (haa : a.same a' = true) (pipe : Token) :
    ((Expr.cardinality pipe e).eval env).1 = ((Expr.cardinality pipe e').eval env').1 := by
  rw [eval, eval, Eval.bind_of_ok he, Eval.bind_of_ok he']
  rcases Value.expectSet_cases haa with ⟨s, s', rfl, rfl, hss⟩ | neither
  · have size := (Value.wellFormed_set.mp ha').length_congr hss
    exact congrArg (fun n => countValue n pipe.line) size
  · rw [(neither _ _).1, (neither _ _).2]
    rfl

end Operators

/-- For same operands, at any depth and in any order, the operators of equality and of sets have same results or the
same fault. Same values are both true or both false, and have as many elements or the same fault. Every set holds both
or neither, and becomes the same set when either one is put into it. -/
theorem operators_respect_same {a a' b b' : Value} (ha : a.WellFormed) (ha' : a'.WellFormed) (hb : b.WellFormed)
    (hb' : b'.WellFormed) (haa : a.same a' = true) (hbb : b.same b' = true) (line : Nat) :
    (∀ op ∈ [BinaryOp.equal, .notEqual, .union, .intersect, .subseteq, .member],
        SameOutcome (op.apply a b line) (op.apply a' b' line)) ∧
      a.isTruthy = a'.isTruthy ∧
      (∀ (pipe : Token) (e e' : Expr) (env env' after after' : Environment), e.eval env = (.ok a, after) →
        e'.eval env' = (.ok a', after') →
        ((Expr.cardinality pipe e).eval env).1 = ((Expr.cardinality pipe e').eval env').1) ∧
      ∀ s : Members, s.WellFormed →
        s.contains a = s.contains a' ∧ (s.insert a).1 = (s.insert a').1 ∧
          (s.insert a).2.same (s.insert a').2 = true := by
  refine ⟨fun op hop => ?_, Value.isTruthy_same ha' haa, ?_, fun s hs => ⟨?_, hs.insert_congr ha ha' haa⟩⟩
  · exact BinaryOp.apply_same hop ha ha' hb hb' haa hbb line
  · intro pipe e e' env env' after after' he he'
    exact Expr.eval_cardinality_same he he' ha' haa pipe
  · exact hs.contains_congr hs ha ha' (Value.wellFormed_set.mpr hs).refl haa

/-- A set of a set and a zero, in two orders and with either zero, beside the set of it. -/
theorem operators_respect_same_zeros :
    let inner : Value := .set (.ofList [.bool true, .string "s"])
    let inner' : Value := .set (.ofList [.string "s", .bool true])
    let a : Value := .set (.ofList [.number 0.0, inner])
    let a' : Value := .set (.ofList [inner', .number (-0.0)])
    let b : Value := .set (.ofList [a, .nil])
    let b' : Value := .set (.ofList [.nil, a'])
    a.WellFormed ∧ a'.WellFormed ∧ b.WellFormed ∧ b'.WellFormed ∧ a.same a' = true ∧ b.same b' = true ∧
      SameOutcome (BinaryOp.union.apply a b 1) (BinaryOp.union.apply a' b' 1) ∧
      SameOutcome (BinaryOp.member.apply a b 1) (BinaryOp.member.apply a' b' 1) := by
  intro inner inner' a a' b b'
  have set : ∀ vs : List Value, (∀ v ∈ vs, v.WellFormed) → (Value.set (.ofList vs)).WellFormed := fun vs h =>
    Value.wellFormed_set.mpr (Members.wellFormed_ofList h)
  have hi : inner.WellFormed := set _ (by simp)
  have hi' : inner'.WellFormed := set _ (by simp)
  have ha : a.WellFormed := set _ (by simp [hi])
  have ha' : a'.WellFormed := set _ (by simp [hi'])
  have hb : b.WellFormed := set _ (by simp [ha])
  have hb' : b'.WellFormed := set _ (by simp [ha'])
  have haa : a.same a' = true := by decide +kernel
  have hbb : b.same b' = true := by decide +kernel
  obtain ⟨operators, -⟩ := operators_respect_same ha ha' hb hb' haa hbb 1
  exact ⟨ha, ha', hb, hb', haa, hbb, operators .union (by decide), operators .member (by decide)⟩

end SetScript
