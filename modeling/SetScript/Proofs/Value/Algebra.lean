import SetScript.Operation
import SetScript.Proofs.Value.Membership
/-!
# Set algebra

On sets, `union`, `intersect` and `subseteq` always have a result, and up to the order of elements they obey the laws
of set algebra (`setAlgebra_laws`). A result is looked at through the values that are in it (`Denotes`), and there each
law is one of propositional logic.
-/

namespace SetScript

/-- An operator between two results, which must both be there. -/
def BinaryOp.between (op : BinaryOp) (line : Nat) (left right : Except Fault Value) : Except Fault Value := do
  let a ← left
  let b ← right
  op.apply a b line

/-- Both results are there, and they are the same. -/
def Alike (result result' : Except Fault Value) : Prop :=
  ∃ v w, result = .ok v ∧ result' = .ok w ∧ v.same w = true

/-- The result is a well-formed set, and the values in it are those with the property. -/
def Denotes (result : Except Fault Value) (p : Value → Prop) : Prop :=
  ∃ s, result = .ok (.set s) ∧ s.WellFormed ∧ ∀ v : Value, v.WellFormed → (s.contains v = true ↔ p v)

namespace Denotes

variable {left right : Except Fault Value} {p q : Value → Prop}

theorem set {s : Members} (hs : s.WellFormed) : Denotes (.ok (.set s)) fun v => s.contains v = true :=
  ⟨s, rfl, hs, fun _ _ => Iff.rfl⟩

theorem empty : Denotes (.ok (.set .empty)) fun _ => False :=
  ⟨.empty, rfl, Members.wellFormed_empty, fun v _ => by simp [Members.contains_empty]⟩

theorem union (hl : Denotes left p) (hr : Denotes right q) (line : Nat) :
    Denotes (BinaryOp.union.between line left right) fun v => p v ∨ q v := by
  obtain ⟨s, rfl, hs, hp⟩ := hl
  obtain ⟨t, rfl, ht, hq⟩ := hr
  exact ⟨s.union t, rfl, hs.union ht, fun v hv => by rw [hs.contains_union ht hv, hp v hv, hq v hv]⟩

theorem inter (hl : Denotes left p) (hr : Denotes right q) (line : Nat) :
    Denotes (BinaryOp.intersect.between line left right) fun v => p v ∧ q v := by
  obtain ⟨s, rfl, hs, hp⟩ := hl
  obtain ⟨t, rfl, ht, hq⟩ := hr
  exact ⟨s.inter t, rfl, hs.inter t, fun v hv => by rw [hs.contains_inter ht hv, hp v hv, hq v hv]⟩

theorem subseteq (hl : Denotes left p) (hr : Denotes right q) (line : Nat) :
    ∃ holds, BinaryOp.subseteq.between line left right = .ok (.bool holds) ∧
      (holds = true ↔ ∀ v : Value, v.WellFormed → p v → q v) := by
  obtain ⟨s, rfl, hs, hp⟩ := hl
  obtain ⟨t, rfl, ht, hq⟩ := hr
  refine ⟨s.subset t, rfl, ?_⟩
  rw [hs.subset_iff_contains ht]
  exact forall₂_congr fun v hv => by rw [hp v hv, hq v hv]

theorem subseteq_iff (hl : Denotes left p) (hr : Denotes right q) (line : Nat) :
    BinaryOp.subseteq.between line left right = .ok (.bool true) ↔ ∀ v : Value, v.WellFormed → p v → q v := by
  obtain ⟨holds, result, iff⟩ := hl.subseteq hr line
  rw [result, ← iff]
  simp

theorem alike_iff (hl : Denotes left p) (hr : Denotes right q) :
    Alike left right ↔ ∀ v : Value, v.WellFormed → (p v ↔ q v) := by
  obtain ⟨s, rfl, hs, hp⟩ := hl
  obtain ⟨t, rfl, ht, hq⟩ := hr
  have sets : Alike (.ok (.set s)) (.ok (.set t)) ↔ s.same t = true := by
    constructor
    · rintro ⟨v, w, hv, hw, same⟩
      cases hv
      cases hw
      exact same
    · exact fun same => ⟨.set s, .set t, rfl, rfl, same⟩
  rw [sets, hs.same_iff_contains ht]
  exact forall₂_congr fun v hv => by rw [hp v hv, hq v hv]

end Denotes

/-- On sets, in whatever order they were filled, union and intersection are commutative, associative and idempotent,
absorb each other and distribute over each other, with the empty set as their neutral and absorbing element. Inclusion
is reflexive and transitive, holds both ways between the same sets alone, and says that the union is the greater set,
and that the intersection is the smaller one. -/
theorem setAlgebra_laws {a b c : Members} (ha : a.WellFormed) (hb : b.WellFormed) (hc : c.WellFormed) (line : Nat) :
    let A : Except Fault Value := .ok (.set a)
    let B : Except Fault Value := .ok (.set b)
    let C : Except Fault Value := .ok (.set c)
    let nothing : Except Fault Value := .ok (.set .empty)
    let join := BinaryOp.union.between line
    let meet := BinaryOp.intersect.between line
    let inclusion := BinaryOp.subseteq.between line
    let part := fun left right => inclusion left right = .ok (.bool true)
    (Alike (join A B) (join B A) ∧ Alike (join (join A B) C) (join A (join B C)) ∧ Alike (join A A) A) ∧
      (Alike (meet A B) (meet B A) ∧ Alike (meet (meet A B) C) (meet A (meet B C)) ∧ Alike (meet A A) A) ∧
      (Alike (join A (meet A B)) A ∧ Alike (meet A (join A B)) A) ∧
      (Alike (join A (meet B C)) (meet (join A B) (join A C)) ∧
        Alike (join (meet B C) A) (meet (join B A) (join C A))) ∧
      (Alike (meet A (join B C)) (join (meet A B) (meet A C)) ∧
        Alike (meet (join B C) A) (join (meet B A) (meet C A))) ∧
      (Alike (join A nothing) A ∧ Alike (join nothing A) A ∧ Alike (meet A nothing) nothing ∧
        Alike (meet nothing A) nothing) ∧
      ((∃ holds, inclusion A B = .ok (.bool holds)) ∧ part A A ∧ (part A B → part B C → part A C) ∧
        (part A B ∧ part B A ↔ (Value.set a).same (.set b) = true)) ∧
      (part A B ↔ Alike (join A B) B) ∧ (part A B ↔ Alike (meet A B) A) := by
  intro A B C nothing join meet inclusion part
  have hA : Denotes A _ := .set ha
  have hB : Denotes B _ := .set hb
  have hC : Denotes C _ := .set hc
  have hN : Denotes nothing _ := .empty
  have hAB := hA.union hB line
  have hAC := hA.union hC line
  have hBA := hB.union hA line
  have hBC := hB.union hC line
  have hCA := hC.union hA line
  have hAB' := hA.inter hB line
  have hAC' := hA.inter hC line
  have hBA' := hB.inter hA line
  have hBC' := hB.inter hC line
  have hCA' := hC.inter hA line
  refine ⟨⟨?_, ?_, ?_⟩, ⟨?_, ?_, ?_⟩, ⟨?_, ?_⟩, ⟨?_, ?_⟩, ⟨?_, ?_⟩, ⟨?_, ?_, ?_, ?_⟩, ⟨?_, ?_, ?_, ?_⟩, ?_, ?_⟩
  · exact (hAB.alike_iff hBA).mpr fun v _ => or_comm
  · exact ((hAB.union hC line).alike_iff (hA.union hBC line)).mpr fun v _ => or_assoc
  · exact ((hA.union hA line).alike_iff hA).mpr fun v _ => or_self_iff
  · exact (hAB'.alike_iff hBA').mpr fun v _ => and_comm
  · exact ((hAB'.inter hC line).alike_iff (hA.inter hBC' line)).mpr fun v _ => and_assoc
  · exact ((hA.inter hA line).alike_iff hA).mpr fun v _ => and_self_iff
  · exact ((hA.union hAB' line).alike_iff hA).mpr fun v _ => or_iff_left_of_imp And.left
  · exact ((hA.inter hAB line).alike_iff hA).mpr fun v _ => and_iff_left_of_imp .inl
  · exact ((hA.union hBC' line).alike_iff (hAB.inter hAC line)).mpr fun v _ => or_and_left
  · exact ((hBC'.union hA line).alike_iff (hBA.inter hCA line)).mpr fun v _ => and_or_right
  · exact ((hA.inter hBC line).alike_iff (hAB'.union hAC' line)).mpr fun v _ => and_or_left
  · exact ((hBC.inter hA line).alike_iff (hBA'.union hCA' line)).mpr fun v _ => or_and_right
  · exact ((hA.union hN line).alike_iff hA).mpr fun v _ => by rw [or_false]
  · exact ((hN.union hA line).alike_iff hA).mpr fun v _ => by rw [false_or]
  · exact ((hA.inter hN line).alike_iff hN).mpr fun v _ => by rw [and_false]
  · exact ((hN.inter hA line).alike_iff hN).mpr fun v _ => by rw [false_and]
  · obtain ⟨holds, result, -⟩ := hA.subseteq hB line
    exact ⟨holds, result⟩
  · exact (hA.subseteq_iff hA line).mpr fun v _ => id
  · intro hab hbc
    have forth := (hA.subseteq_iff hB line).mp hab
    have further := (hB.subseteq_iff hC line).mp hbc
    exact (hA.subseteq_iff hC line).mpr fun v hv h => further v hv (forth v hv h)
  · have both := ha.same_iff_subset hb
    rw [ha.subset_iff_contains hb, hb.subset_iff_contains ha] at both
    exact (and_congr (hA.subseteq_iff hB line) (hB.subseteq_iff hA line)).trans both.symm
  · rw [hAB.alike_iff hB]
    exact (hA.subseteq_iff hB line).trans (forall₂_congr fun v _ => or_iff_right_iff_imp.symm)
  · rw [hAB'.alike_iff hA]
    exact (hA.subseteq_iff hB line).trans (forall₂_congr fun v _ => and_iff_left_iff_imp.symm)

/-- The laws at sets with zeros of either sign and with one set in two orders. -/
theorem setAlgebra_laws_zeros :
    let inner : Members := .ofList [.bool true, .string "s"]
    let inner' : Members := .ofList [.string "s", .bool true]
    let a : Members := .ofList [.number 0.0, .set inner]
    let b : Members := .ofList [.set inner', .nil, .number (-0.0)]
    let c : Members := .ofList [.builtin .max, .number 0.0, .set inner, .nil]
    let join := BinaryOp.union.between 1
    let part := fun s t : Members => BinaryOp.subseteq.between 1 (.ok (.set s)) (.ok (.set t)) = .ok (.bool true)
    a.WellFormed ∧ b.WellFormed ∧ c.WellFormed ∧
      Alike (join (.ok (.set a)) (.ok (.set b))) (join (.ok (.set b)) (.ok (.set a))) ∧
      part a b ∧ part b c ∧ part a c := by
  intro inner inner' a b c join part
  have hi : inner.WellFormed := Members.wellFormed_ofList (by simp)
  have hi' : inner'.WellFormed := Members.wellFormed_ofList (by simp)
  have ha : a.WellFormed := Members.wellFormed_ofList (by simp [Value.wellFormed_set.mpr hi])
  have hb : b.WellFormed := Members.wellFormed_ofList (by simp [Value.wellFormed_set.mpr hi'])
  have hc : c.WellFormed := Members.wellFormed_ofList (by simp [Value.wellFormed_set.mpr hi])
  have hab : part a b := congrArg (Except.ok ∘ Value.bool) (show a.subset b = true by decide +kernel)
  have hbc : part b c := congrArg (Except.ok ∘ Value.bool) (show b.subset c = true by decide +kernel)
  obtain ⟨⟨comm, -⟩, -, -, -, -, -, ⟨-, -, trans, -⟩, -⟩ := setAlgebra_laws ha hb hc 1
  exact ⟨ha, hb, hc, comm, hab, hbc, trans hab hbc⟩

end SetScript
