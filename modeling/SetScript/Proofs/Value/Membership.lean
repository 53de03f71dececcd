import SetScript.Proofs.Value.Construction
/-!
# Sets by their members

A well-formed set is known by the values that are the same as one of its elements: whether two sets are the same, and
whether one is part of the other, is decided by these alone (`WellFormed.same_iff_contains`,
`WellFormed.subset_iff_contains`), and every operation has its own rule for them.
-/

namespace SetScript.Members

variable {s t : Members} {v w : Value}

theorem contains_empty (v : Value) : empty.contains v = false := rfl

theorem WellFormed.contains_of_mem (hs : s.WellFormed) (hv : v ∈ s.elements) : s.contains v = true :=
  (hs.contains_iff v).mpr ⟨v, hv, (hs.elements v hv).refl⟩

/-- A set does not tell same values apart. -/
theorem WellFormed.contains_of_same (hs : s.WellFormed) (hv : v.WellFormed) (hw : w.WellFormed)
    (same : v.same w = true) (h : s.contains v = true) : s.contains w = true := by
  obtain ⟨u, hu, hvu⟩ := (hs.contains_iff v).mp h
  have back : w.same v = true := hv.symm hw same
  exact (hs.contains_iff w).mpr ⟨u, hu, hw.trans hv (hs.elements u hu) back hvu⟩

/-! ## Operations -/

theorem WellFormed.contains_insert (hs : s.WellFormed) (hv : v.WellFormed) (hw : w.WellFormed) :
    (s.insert v).2.contains w = true ↔ s.contains w = true ∨ w.same v = true := by
  unfold Members.insert
  split
  · next present =>
    refine ⟨.inl, fun h => h.elim id fun same => ?_⟩
    exact hs.contains_of_same hv hw (hw.symm hv same) present
  · simp only [contains, List.any_cons, Bool.or_eq_true]
    exact or_comm

theorem contains_ofList {vs : List Value} (h : ∀ v ∈ vs, v.WellFormed) (hw : w.WellFormed) :
    (ofList vs).contains w = true ↔ ∃ v ∈ vs, w.same v = true := by
  have all : ∀ s : Members, s.WellFormed → ((vs.foldl (fun s v => (s.insert v).2) s).contains w = true ↔
      s.contains w = true ∨ ∃ v ∈ vs, w.same v = true) := by
    induction vs with
    | nil => simp
    | cons v vs ih =>
      intro s hs
      rw [List.forall_mem_cons] at h
      rw [List.foldl_cons, ih h.2 _ (hs.insert h.1), hs.contains_insert h.1 hw]
      simp only [List.mem_cons, exists_eq_or_imp, or_assoc]
  rw [ofList, all empty wellFormed_empty]
  simp [contains_empty]

theorem WellFormed.contains_union (hs : s.WellFormed) (ht : t.WellFormed) (hw : w.WellFormed) :
    (s.union t).contains w = true ↔ s.contains w = true ∨ t.contains w = true := by
  have values : ∀ v ∈ s.elements ++ t.elements, v.WellFormed := fun v hv =>
    (List.mem_append.mp hv).elim (hs.elements v) (ht.elements v)
  rw [Members.union, contains_ofList values hw, hs.contains_iff, ht.contains_iff]
  simp only [List.mem_append, or_and_right, exists_or]

theorem WellFormed.contains_inter (hs : s.WellFormed) (ht : t.WellFormed) (hw : w.WellFormed) :
    (s.inter t).contains w = true ↔ s.contains w = true ∧ t.contains w = true := by
  have values : ∀ v ∈ s.elements.filter t.contains, v.WellFormed := fun v hv =>
    hs.elements v (List.mem_filter.mp hv).1
  rw [Members.inter, contains_ofList values hw, hs.contains_iff]
  constructor
  · rintro ⟨v, hv, same⟩
    obtain ⟨hv, inside⟩ := List.mem_filter.mp hv
    have hvw := hw.symm (hs.elements v hv) same
    exact ⟨⟨v, hv, same⟩, ht.contains_of_same (hs.elements v hv) hw hvw inside⟩
  · rintro ⟨⟨v, hv, same⟩, inside⟩
    have hv' := ht.contains_of_same hw (hs.elements v hv) same inside
    exact ⟨v, List.mem_filter.mpr ⟨hv, hv'⟩, same⟩

/-! ## Comparisons -/

theorem WellFormed.subset_iff_contains (hs : s.WellFormed) (ht : t.WellFormed) :
    s.subset t = true ↔ ∀ v : Value, v.WellFormed → s.contains v = true → t.contains v = true := by
  rw [subset, List.all_eq_true]
  constructor
  · intro h w hw inside
    obtain ⟨v, hv, same⟩ := (hs.contains_iff w).mp inside
    exact ht.contains_of_same (hs.elements v hv) hw (hw.symm (hs.elements v hv) same) (h v hv)
  · exact fun h v hv => h v (hs.elements v hv) (hs.contains_of_mem hv)

/-- Two sets are the same if each is part of the other. -/
theorem WellFormed.same_iff_subset (hs : s.WellFormed) (ht : t.WellFormed) :
    s.same t = true ↔ s.subset t = true ∧ t.subset s = true := by
  rw [hs.same_iff_mutual ht, subset, subset, List.all_eq_true, List.all_eq_true]
  simp only [hs.contains_iff, ht.contains_iff]

theorem WellFormed.same_iff_contains (hs : s.WellFormed) (ht : t.WellFormed) :
    s.same t = true ↔ ∀ v : Value, v.WellFormed → (s.contains v = true ↔ t.contains v = true) := by
  rw [hs.same_iff_subset ht, hs.subset_iff_contains ht, ht.subset_iff_contains hs]
  exact ⟨fun ⟨forth, back⟩ v hv => ⟨forth v hv, back v hv⟩, fun h =>
    ⟨fun v hv => (h v hv).mp, fun v hv => (h v hv).mpr⟩⟩

end SetScript.Members
