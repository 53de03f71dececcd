import SetScript.Proofs.Value.Equality
/-!
# Building sets

Inserting, collecting, uniting and intersecting keep sets well formed. So equality is an equivalence on all values
that can be built, and two sets are equal if and only if they have equal elements (`Value.same_equivalence`).
-/

namespace SetScript

namespace Members

variable {s t : Members}

/-! ## Every operation gives well-formed sets -/

theorem wellFormed_empty : empty.WellFormed :=
  ⟨⟨List.Pairwise.nil, .refl _⟩, fun _ h => absurd h List.not_mem_nil⟩

/-- What is put behind the members is the same as none of them, on either side of the comparison. -/
theorem WellFormed.insert (hs : s.WellFormed) {v : Value} (hv : v.WellFormed) : (s.insert v).2.WellFormed := by
  unfold Members.insert
  split
  · exact hs
  · next absent =>
    have new : ∀ w ∈ s.elements, w.same v = false := by
      intro w hw
      refine Bool.eq_false_iff.mpr fun h => absent ?_
      exact (hs.contains_iff v).mpr ⟨w, hw, (hs.elements w hw).symm hv h⟩
    refine ⟨⟨?_, ?_⟩, ?_⟩
    · exact List.pairwise_append.mpr
        ⟨hs.distinct, List.pairwise_singleton _ v, fun w hw v' hv' => List.mem_singleton.mp hv' ▸ new w hw⟩
    · exact (hs.indexed.cons v).trans (List.perm_append_singleton v s.elements).symm
    · intro w hw
      rcases List.mem_append.mp hw with hw | hw
      · exact hs.elements w hw
      · exact List.mem_singleton.mp hw ▸ hv

theorem wellFormed_ofList {vs : List Value} (h : ∀ v ∈ vs, v.WellFormed) : (ofList vs).WellFormed := by
  -- The induction is on the values that are still to come, from any well-formed set so far.
  have all : ∀ s : Members, s.WellFormed → (vs.foldl (fun s v => (s.insert v).2) s).WellFormed := by
    induction vs with
    | nil => exact fun _ hs => hs
    | cons v vs ih =>
      intro s hs
      rw [List.forall_mem_cons] at h
      exact ih h.2 _ (hs.insert h.1)
  exact all empty wellFormed_empty

theorem WellFormed.union (hs : s.WellFormed) (ht : t.WellFormed) : (s.union t).WellFormed :=
  wellFormed_ofList fun v hv => (List.mem_append.mp hv).elim (hs.elements v) (ht.elements v)

theorem WellFormed.inter (hs : s.WellFormed) (t : Members) : (s.inter t).WellFormed :=
  wellFormed_ofList fun v hv => hs.elements v (List.mem_filter.mp hv).1

end Members

/-! ## Values that can be built -/

mutual

/-- A value that is built from constants. -/
inductive Value.Built : Value → Prop where
  | number (x : Float) : Value.Built (.number x)
  | bool (b : Bool) : Value.Built (.bool b)
  | string (s : String) : Value.Built (.string s)
  | builtin (f : Builtin) : Value.Built (.builtin f)
  | nil : Value.Built .nil
  | set {s : Members} (built : Members.Built s) : Value.Built (.set s)

/-- A set that is built by the operations on sets. -/
inductive Members.Built : Members → Prop where
  | empty : Members.Built .empty
  | insert {s : Members} {v : Value} (set : Members.Built s) (value : Value.Built v) : Members.Built (s.insert v).2
  | ofList {vs : List Value} (values : ∀ v ∈ vs, Value.Built v) : Members.Built (.ofList vs)
  | union {s t : Members} (left : Members.Built s) (right : Members.Built t) : Members.Built (s.union t)
  | inter {s t : Members} (left : Members.Built s) (right : Members.Built t) : Members.Built (s.inter t)

end

mutual

theorem Value.Built.wellFormed {v : Value} : v.Built → v.WellFormed
  | .number x => Value.wellFormed_number x
  | .bool b => Value.wellFormed_bool b
  | .string s => Value.wellFormed_string s
  | .builtin f => Value.wellFormed_builtin f
  | .nil => Value.wellFormed_nil
  | .set built => Value.wellFormed_set.mpr built.wellFormed

theorem Members.Built.wellFormed {s : Members} : s.Built → s.WellFormed
  | .empty => Members.wellFormed_empty
  | .insert set value => set.wellFormed.insert value.wellFormed
  | .ofList values => Members.wellFormed_ofList fun v hv => (values v hv).wellFormed
  | .union left right => left.wellFormed.union right.wellFormed
  | .inter left _ => left.wellFormed.inter _

end

/-- Equality of the values that can be built is an equivalence, and two sets, however deep they stand in such values
and in whatever order they were filled, are equal if and only if each element of either one is equal to an element
of the other. -/
theorem Value.same_equivalence {a b c : Value} (ha : a.Built) (hb : b.Built) (hc : c.Built) :
    a.same a = true ∧
      (a.same b = true → b.same a = true) ∧
      (a.same b = true → b.same c = true → a.same c = true) ∧
      ∀ s t : Members, (Value.set s).Within a → (Value.set t).Within b →
        ((Value.set s).same (.set t) = true ↔
          (∀ v ∈ s.elements, ∃ w ∈ t.elements, v.same w = true) ∧
            ∀ w ∈ t.elements, ∃ v ∈ s.elements, w.same v = true) := by
  have ha := ha.wellFormed
  have hb := hb.wellFormed
  have hc := hc.wellFormed
  refine ⟨ha.refl, ha.symm hb, ha.trans hb hc, fun s t hs ht => ?_⟩
  have hs := wellFormed_set.mp (ha.of_within hs)
  have ht := wellFormed_set.mp (hb.of_within ht)
  rw [same]
  exact hs.same_iff_mutual ht

/-- Three ways to fill a set with the zero, in either sign, and with the set of nil and true. -/
theorem Value.same_equivalence_zeros :
    let inner : Members := .ofList [.nil, .bool true]
    let inner' : Members := (Members.ofList [.bool true]).union (.ofList [.nil, .bool true])
    let a : Members := .ofList [.number 0.0, .set inner, .number (-0.0)]
    let b : Members := .ofList [.set inner', .number (-0.0)]
    let c : Members := ((Members.ofList [.number (-0.0), .nil, .set inner']).inter (a.union b))
    (Value.set a).Built ∧ (Value.set b).Built ∧ (Value.set c).Built ∧
      (Value.set a).same (.set b) = true ∧ (Value.set b).same (.set c) = true ∧
      (Value.set b).same (.set a) = true ∧ (Value.set a).same (.set c) = true := by
  intro inner inner' a b c
  have hi : inner.Built := .ofList (by simp [Value.Built.nil, Value.Built.bool])
  have hi' : inner'.Built := .union (.ofList (by simp [Value.Built.bool]))
    (.ofList (by simp [Value.Built.nil, Value.Built.bool]))
  have ha : a.Built := .ofList (by simp [Value.Built.number, Value.Built.set hi])
  have hb : b.Built := .ofList (by simp [Value.Built.number, Value.Built.set hi'])
  have hc : c.Built := .inter (.ofList (by simp [Value.Built.number, Value.Built.nil, Value.Built.set hi']))
    (.union ha hb)
  have hab : (Value.set a).same (.set b) = true := by decide +kernel
  have hbc : (Value.set b).same (.set c) = true := by decide +kernel
  obtain ⟨-, symm, trans, -⟩ := Value.same_equivalence (.set ha) (.set hb) (.set hc)
  exact ⟨.set ha, .set hb, .set hc, hab, hbc, symm hab, trans hab hbc⟩

end SetScript
