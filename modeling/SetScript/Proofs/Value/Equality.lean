import SetScript.Value.Members
/-!
# Equality of values

Sets compare by their sizes and by one inclusion. That this is an equivalence rests on sets without two same
members, at every depth: then the inclusion pairs the members off, and equal sizes leave none over. The main
statements are `WellFormed.refl`, `WellFormed.symm`, `WellFormed.trans` and, for sets, `same_iff_mutual` and
`isCount_length`.
-/

namespace SetScript

/-! ## Pairing off -/

section Pairing

variable {α β : Type} {R : α → β → Prop} {s : List α} {t : List β}

/-- No two elements of the first list are related to one element of the second. -/
def Exclusive (R : α → β → Prop) (s : List α) (t : List β) : Prop :=
  s.Pairwise fun v v' => ∀ w ∈ t, R v w → ¬ R v' w

/-- If each element of `s` has a partner in `t` and none is shared, then they pair off with a part of `t`. -/
theorem exists_paired (partner : ∀ v ∈ s, ∃ w ∈ t, R v w) (exclusive : Exclusive R s t) :
    ∃ paired rest, t.Perm (paired ++ rest) ∧ paired.length = s.length ∧ ∀ w ∈ paired, ∃ v ∈ s, R v w := by
  induction s generalizing t with
  | nil => exact ⟨[], t, .refl t, rfl, by simp⟩
  | cons v s ih =>
    obtain ⟨w, hw, hvw⟩ := partner v List.mem_cons_self
    obtain ⟨front, back, rfl⟩ := List.append_of_mem hw
    have apart : (front ++ w :: back).Perm (w :: (front ++ back)) := List.perm_middle
    obtain ⟨others, exclusive⟩ := List.pairwise_cons.mp exclusive
    -- The partner of `v` is taken, so the others have theirs in what is left.
    have left : ∀ v' ∈ s, ∃ w' ∈ front ++ back, R v' w' := by
      intro v' hv'
      obtain ⟨w', hw', hr⟩ := partner v' (List.mem_cons_of_mem v hv')
      rcases List.mem_cons.mp (apart.subset hw') with rfl | hw'
      · exact absurd hr (others v' hv' w' hw hvw)
      · exact ⟨w', hw', hr⟩
    obtain ⟨paired, rest, hp, hl, hm⟩ := ih left
      (exclusive.imp fun h w' hw' => h w' (apart.symm.subset (List.mem_cons_of_mem w hw')))
    refine ⟨w :: paired, rest, apart.trans (hp.cons w), by simp [hl], ?_⟩
    intro w' hw'
    rcases List.mem_cons.mp hw' with rfl | hw'
    · exact ⟨v, List.mem_cons_self, hvw⟩
    · obtain ⟨v', hv', hr⟩ := hm w' hw'
      exact ⟨v', List.mem_cons_of_mem v hv', hr⟩

theorem length_le_of_partner (partner : ∀ v ∈ s, ∃ w ∈ t, R v w) (exclusive : Exclusive R s t) :
    s.length ≤ t.length := by
  obtain ⟨paired, rest, hp, hl, -⟩ := exists_paired partner exclusive
  rw [hp.length_eq, List.length_append, hl]
  exact Nat.le_add_right _ _

/-- If `t` is no longer than `s`, then none of it is left over. -/
theorem exists_of_partner (partner : ∀ v ∈ s, ∃ w ∈ t, R v w) (exclusive : Exclusive R s t)
    (h : t.length ≤ s.length) : ∀ w ∈ t, ∃ v ∈ s, R v w := by
  obtain ⟨paired, rest, hp, hl, hm⟩ := exists_paired partner exclusive
  have none : rest = [] := by
    rw [hp.length_eq, List.length_append, hl] at h
    exact List.eq_nil_of_length_eq_zero (by omega)
  intro w hw
  exact hm w (by simpa [none] using hp.subset hw)

end Pairing

/-! ## Sets without two same members -/

/-- A value stands somewhere in another one, at any depth. -/
inductive Value.Within : Value → Value → Prop where
  | self (v : Value) : Within v v
  | element {v w : Value} {s : Members} (mem : w ∈ s.elements) (within : Within v w) : Within v (.set s)

/-- No two elements are the same, and the index holds the elements and nothing else. -/
structure Members.Sound (s : Members) : Prop where
  distinct : s.elements.Pairwise fun v w => v.same w = false
  indexed : s.index.Perm s.elements

/-- Every set in a value is sound, at any depth. -/
def Value.WellFormed (v : Value) : Prop := ∀ s, (Value.set s).Within v → s.Sound

/-- A sound set of well-formed elements. -/
structure Members.WellFormed (s : Members) : Prop extends s.Sound where
  elements : ∀ v ∈ s.elements, v.WellFormed

theorem Value.wellFormed_set {s : Members} : (Value.set s).WellFormed ↔ s.WellFormed := by
  constructor
  · intro h
    exact ⟨h s (.self _), fun v hv t ht => h t (.element hv ht)⟩
  · intro h t ht
    cases ht with
    | self => exact h.toSound
    | element hv ht => exact h.elements _ hv t ht

theorem Value.Within.trans {u v w : Value} (h : u.Within v) (h' : v.Within w) : u.Within w := by
  induction h' with
  | self => exact h
  | element mem _ ih => exact .element mem ih

/-- What stands in a well-formed value is well formed. -/
theorem Value.WellFormed.of_within {v w : Value} (h : w.WellFormed) (hv : v.Within w) : v.WellFormed :=
  fun s hs => h s (hs.trans hv)

/-- A value without elements is well formed. -/
theorem Value.wellFormed_of_ne_set {v : Value} (h : ∀ s, v ≠ .set s) : v.WellFormed := by
  intro s hs
  cases hs with
  | self => exact absurd rfl (h s)
  | element => exact absurd rfl (h _)

@[simp] theorem Value.wellFormed_number (x : Float) : (Value.number x).WellFormed :=
  wellFormed_of_ne_set (by simp)

@[simp] theorem Value.wellFormed_bool (b : Bool) : (Value.bool b).WellFormed := wellFormed_of_ne_set (by simp)

@[simp] theorem Value.wellFormed_string (s : String) : (Value.string s).WellFormed :=
  wellFormed_of_ne_set (by simp)

@[simp] theorem Value.wellFormed_builtin (f : Builtin) : (Value.builtin f).WellFormed :=
  wellFormed_of_ne_set (by simp)

@[simp] theorem Value.wellFormed_nil : Value.nil.WellFormed := wellFormed_of_ne_set (by simp)

/-- Induction on values: a set after its elements. -/
@[elab_as_elim]
theorem Value.elementwise {P : Value → Prop} (number : ∀ x, P (.number x)) (bool : ∀ b, P (.bool b))
    (string : ∀ s, P (.string s)) (set : ∀ s : Members, (∀ v ∈ s.elements, P v) → P (.set s))
    (builtin : ∀ f, P (.builtin f)) (nil : P .nil) (v : Value) : P v :=
  Value.rec (motive_2 := fun s => ∀ v ∈ s.elements, P v) (motive_3 := fun vs => ∀ v ∈ vs, P v)
    number bool string set builtin nil (fun _ _ h _ => h) (fun _ h => absurd h List.not_mem_nil)
    (fun _ _ h hs => List.forall_mem_cons.mpr ⟨h, hs⟩) v

/-! ## What the comparison of sets asks -/

theorem Value.allIn_iff (vs index : List Value) :
    Value.allIn vs index = true ↔ ∀ v ∈ vs, ∃ w ∈ index, v.same w = true := by
  induction vs with
  | nil => simp [allIn]
  | cons v vs ih => simp [allIn, ih]

namespace Members

variable {s t : Members}

theorem Sound.contains_iff (h : s.Sound) (v : Value) :
    s.contains v = true ↔ ∃ w ∈ s.elements, v.same w = true := by
  simp only [contains, List.any_eq_true, h.indexed.mem_iff]

theorem Sound.same_iff (h : t.Sound) :
    s.same t = true ↔
      s.elements.length = t.elements.length ∧ ∀ v ∈ s.elements, ∃ w ∈ t.elements, v.same w = true := by
  obtain ⟨as, _⟩ := s
  obtain ⟨bs, index⟩ := t
  simp only [same, Bool.and_eq_true, beq_iff_eq, Value.allIn_iff, h.indexed.mem_iff]

end Members

/-! ## The equivalence -/

theorem Number.same_refl (x : Float) : Number.same x x = true := (same_iff_place_eq x x).mpr rfl

theorem Number.same_symm {x y : Float} (h : Number.same x y = true) : Number.same y x = true :=
  (same_iff_place_eq y x).mpr ((same_iff_place_eq x y).mp h).symm

theorem Number.same_trans {x y z : Float} (h : Number.same x y = true) (h' : Number.same y z = true) :
    Number.same x z = true :=
  (same_iff_place_eq x z).mpr (((same_iff_place_eq x y).mp h).trans ((same_iff_place_eq y z).mp h'))

/-- What an equivalence asks of one value, among well-formed ones. -/
structure Value.Fair (a : Value) : Prop where
  refl : a.same a = true
  symm : ∀ b : Value, b.WellFormed → a.same b = true → b.same a = true
  trans : ∀ b c : Value, b.WellFormed → c.WellFormed → a.same b = true → b.same c = true → a.same c = true

namespace Members

variable {s t u : Members}

/-- No two members of a set are the same as one member of another. -/
theorem WellFormed.exclusive (hs : s.WellFormed) (ht : t.WellFormed) (fair : ∀ v ∈ s.elements, v.Fair) :
    Exclusive (fun v w => v.same w = true) s.elements t.elements := by
  refine hs.distinct.imp_of_mem fun {v v'} hv hv' differ w hw hvw hvw' => ?_
  have back : w.same v' = true := (fair v' hv').symm w (ht.elements w hw) hvw'
  have := (fair v hv).trans w v' (ht.elements w hw) (hs.elements v' hv') hvw back
  rw [differ] at this
  cases this

theorem WellFormed.fair (hs : s.WellFormed) (fair : ∀ v ∈ s.elements, v.Fair) : (Value.set s).Fair where
  refl := hs.same_iff.mpr ⟨rfl, fun v hv => ⟨v, hv, (fair v hv).refl⟩⟩
  symm b hb h := by
    cases b with
    | set t =>
      have ht := Value.wellFormed_set.mp hb
      obtain ⟨size, partner⟩ := ht.same_iff.mp h
      -- Each member of `t` is the partner of a member of `s`, since none is left over.
      have partner' := exists_of_partner partner (hs.exclusive ht fair) (Nat.le_of_eq size.symm)
      refine hs.same_iff.mpr ⟨size.symm, fun w hw => ?_⟩
      obtain ⟨v, hv, hvw⟩ := partner' w hw
      exact ⟨v, hv, (fair v hv).symm w (ht.elements w hw) hvw⟩
    | _ => cases h
  trans b c hb hc h h' := by
    cases b with
    | set t =>
      cases c with
      | set u =>
        have ht := Value.wellFormed_set.mp hb
        have hu := Value.wellFormed_set.mp hc
        obtain ⟨size, partner⟩ := ht.same_iff.mp h
        obtain ⟨size', partner'⟩ := hu.same_iff.mp h'
        refine hu.same_iff.mpr ⟨size.trans size', fun v hv => ?_⟩
        obtain ⟨w, hw, hvw⟩ := partner v hv
        obtain ⟨x, hx, hwx⟩ := partner' w hw
        exact ⟨x, hx, (fair v hv).trans w x (ht.elements w hw) (hu.elements x hx) hvw hwx⟩
      | _ => cases h'
    | _ => cases h

end Members

namespace Value

variable {a b c : Value}

theorem WellFormed.fair (h : a.WellFormed) : a.Fair := by
  induction a using Value.elementwise with
  | number x =>
    refine ⟨Number.same_refl x, fun b _ h => ?_, fun b c _ _ h h' => ?_⟩
    · cases b with
      | number y => exact Number.same_symm h
      | _ => cases h
    · cases b with
      | number y =>
        cases c with
        | number z => exact Number.same_trans h h'
        | _ => cases h'
      | _ => cases h
  | set s ih =>
    have hs := wellFormed_set.mp h
    exact hs.fair fun v hv => ih v hv (hs.elements v hv)
  | bool | string | builtin | nil =>
    refine ⟨by simp [same], fun b _ h => ?_, fun b c _ _ h h' => ?_⟩
    · cases b <;> simp_all [same]
    · cases b <;> cases c <;> simp_all [same]

theorem WellFormed.refl (ha : a.WellFormed) : a.same a = true := ha.fair.refl

theorem WellFormed.symm (ha : a.WellFormed) (hb : b.WellFormed) (h : a.same b = true) : b.same a = true :=
  ha.fair.symm b hb h

theorem WellFormed.trans (ha : a.WellFormed) (hb : b.WellFormed) (hc : c.WellFormed) (h : a.same b = true)
    (h' : b.same c = true) : a.same c = true :=
  ha.fair.trans b c hb hc h h'

end Value

namespace Members

variable {s t : Members}

/-- Two sets are the same if each member of either one is the same as a member of the other. -/
theorem WellFormed.same_iff_mutual (hs : s.WellFormed) (ht : t.WellFormed) :
    s.same t = true ↔
      (∀ v ∈ s.elements, ∃ w ∈ t.elements, v.same w = true) ∧
        ∀ w ∈ t.elements, ∃ v ∈ s.elements, w.same v = true := by
  constructor
  · intro h
    have back : t.same s = true := (Value.wellFormed_set.mpr hs).symm (Value.wellFormed_set.mpr ht) h
    exact ⟨(ht.same_iff.mp h).2, (hs.same_iff.mp back).2⟩
  · rintro ⟨forth, back⟩
    have fits := length_le_of_partner forth (hs.exclusive ht fun v hv => (hs.elements v hv).fair)
    have fits' := length_le_of_partner back (ht.exclusive hs fun w hw => (ht.elements w hw).fair)
    exact ht.same_iff.mpr ⟨Nat.le_antisymm fits fits', forth⟩

/-! ## The size of a set -/

/-- The greatest number of elements of a set of which no two are the same. -/
def IsCount (s : Members) (n : Nat) : Prop :=
  (∃ vs : List Value, vs ⊆ s.elements ∧ (vs.Pairwise fun v w => v.same w = false) ∧ vs.length = n) ∧
    ∀ vs : List Value, vs ⊆ s.elements → (vs.Pairwise fun v w => v.same w = false) → vs.length ≤ n

/-- The length of a well-formed set is that number. -/
theorem WellFormed.isCount_length (hs : s.WellFormed) : s.IsCount s.length := by
  refine ⟨⟨s.elements, List.Subset.refl _, hs.distinct, rfl⟩, fun vs sub differ => ?_⟩
  have once : Exclusive (· = ·) vs s.elements := by
    refine differ.imp_of_mem fun {v v'} hv _ hd w _ h h' => ?_
    subst h h'
    rw [(hs.elements _ (sub hv)).refl] at hd
    cases hd
  exact length_le_of_partner (fun v hv => ⟨v, sub hv, rfl⟩) once

/-- There is only one such number. -/
theorem IsCount.unique {n m : Nat} (h : s.IsCount n) (h' : s.IsCount m) : n = m := by
  obtain ⟨⟨vs, sub, differ, rfl⟩, most⟩ := h
  obtain ⟨⟨ws, sub', differ', rfl⟩, most'⟩ := h'
  exact Nat.le_antisymm (most' vs sub differ) (most ws sub' differ')

end Members

end SetScript
