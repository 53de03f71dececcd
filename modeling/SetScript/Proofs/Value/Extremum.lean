import Mathlib.Data.Set.List
import SetScript.Builtin
import SetScript.Proofs.Number.Order
import SetScript.Proofs.Value.Congruence
import SetScript.Proofs.Value.Order
/-!
# The least and the greatest element

`min` and `max` of a set go through its elements in the order in which they came in, from the first one on. What they
give is still a matter of the set alone: same sets have same extremes, or the same fault, and two numbers on their own
have the extreme of the set of both (`Builtin.call_extremum`).
-/

namespace SetScript

/-- The order by which a function prefers numbers: `min` the smaller and `max` the greater ones. -/
def Builtin.order? : Builtin → Option (Float → Float → Bool)
  | .min => some Number.le
  | .max => some fun x y => Number.le y x
  | _ => none

/-- A number is the first of a set in an order: it is an element, it comes before every element that is not NaN, and it
is NaN only if there is no other element. -/
structure Members.IsExtremum (before : Float → Float → Bool) (s : Members) (z : Float) : Prop where
  mem : .number z ∈ s.elements
  first : ∀ x, .number x ∈ s.elements → Number.place? x ≠ none → before z x = true
  nan : Number.place? z = none → s.elements = [.number z]

/-- Every element is a number. -/
def Members.AllNumbers (s : Members) : Prop := ∀ v ∈ s.elements, ∃ x, v = .number x

/-! ## Elements as numbers -/

theorem Value.expectNumber_of_ne_number {v : Value} (h : ¬ ∃ x, v = .number x) (details : String) (line : Nat) :
    v.expectNumber details line = .error ⟨.typeMismatch details, line⟩ := by
  cases v with
  | number x => exact absurd ⟨x, rfl⟩ h
  | _ => rfl

theorem mapM_expectNumber_of_numbers (xs : List Float) (details : String) (line : Nat) :
    (xs.map Value.number).mapM (fun v => v.expectNumber details line) = .ok xs := by
  have each : (fun v : Value => v.expectNumber details line) ∘ Value.number = fun x => pure (id x) := rfl
  rw [List.mapM_map, each, List.mapM_pure, List.map_id]
  rfl

/-- A value that is no number stops the list, wherever it stands. -/
theorem mapM_expectNumber_of_ne_number {vs : List Value} (h : ¬ ∀ v ∈ vs, ∃ x, v = .number x) (details : String)
    (line : Nat) : vs.mapM (fun v => v.expectNumber details line) = .error ⟨.typeMismatch details, line⟩ := by
  induction vs with
  | nil => exact absurd (by simp) h
  | cons v vs ih =>
    rw [List.mapM_cons]
    by_cases hv : ∃ x, v = .number x
    · obtain ⟨x, rfl⟩ := hv
      rw [ih fun all => h (List.forall_mem_cons.mpr ⟨⟨x, rfl⟩, all⟩)]
      rfl
    · rw [Value.expectNumber_of_ne_number hv]
      rfl

/-- Of a well-formed set of numbers, an extreme that is NaN is the only element. -/
theorem Number.IsExtreme.isExtremum {before : Float → Float → Bool} {s : Members} {xs : List Float} {z : Float}
    (hs : s.WellFormed) (elements : s.elements = xs.map Value.number) (he : IsExtreme before xs z) :
    s.IsExtremum before z where
  mem := by
    rw [elements]
    exact List.mem_map_of_mem he.mem
  first x hx := by
    rw [elements, List.mem_map] at hx
    obtain ⟨y, hy, same⟩ := hx
    cases same
    exact he.first x hy
  nan none := by
    -- All elements are NaN, hence same, and no two elements of a set are the same.
    have all : ∀ v ∈ s.elements, ∀ w ∈ s.elements, v.same w = true := by
      intro v hv w hw
      rw [elements, List.mem_map] at hv hw
      obtain ⟨x, hx, rfl⟩ := hv
      obtain ⟨y, hy, rfl⟩ := hw
      exact (same_iff_place_eq x y).mpr ((he.nan none x hx).trans (he.nan none y hy).symm)
    have one : .number z ∈ s.elements := elements ▸ List.mem_map_of_mem he.mem
    have distinct := hs.distinct
    cases h : s.elements with
    | nil => simp [h] at one
    | cons v others =>
      rw [h] at all distinct one
      have none : others = [] := by
        apply List.eq_nil_iff_forall_not_mem.mpr
        intro w hw
        have differ := (List.pairwise_cons.mp distinct).1 w hw
        rw [all v List.mem_cons_self w (List.mem_cons_of_mem v hw)] at differ
        cases differ
      rw [none] at one ⊢
      rw [List.mem_singleton.mp one]

/-! ## The function on a set -/

section Extremum

variable {f : Builtin} {before : Float → Float → Bool} {pick : Float → Float → Float} {s t : Members}

theorem Builtin.extremum_of_empty (empty : s.elements = []) (line : Nat) :
    f.extremum pick [.set s] line = .error ⟨.invalidArgument s!"'{f.name}' of an empty set.", line⟩ := by
  have none : f.numbers s line = .ok [] := by
    rw [numbers, empty]
    rfl
  simp only [extremum, Value.expectSet, bind, Except.bind, none]
  rfl

theorem Builtin.extremum_of_not_allNumbers (h : ¬ s.AllNumbers) (line : Nat) :
    f.extremum pick [.set s] line =
      .error ⟨.typeMismatch s!"Elements passed to '{f.name}' must be numbers.", line⟩ := by
  have stops : f.numbers s line = .error _ := mapM_expectNumber_of_ne_number h _ line
  simp only [extremum, Value.expectSet, bind, Except.bind, stops]

theorem Builtin.extremum_of_numbers (x : Float) (xs : List Float) (elements : s.elements = (x :: xs).map Value.number)
    (line : Nat) : f.extremum pick [.set s] line = .ok (.number (xs.foldl pick x)) := by
  have all : f.numbers s line = .ok (x :: xs) := by
    rw [numbers, elements]
    exact mapM_expectNumber_of_numbers (x :: xs) _ line
  simp only [extremum, Value.expectSet, bind, Except.bind, all]
  rfl

/-- The numbers of a set that is not empty have an extreme, and it is what the function gives. -/
theorem Builtin.exists_extremum (h : Number.Prefers before pick) (nonempty : s.elements ≠ []) (all : s.AllNumbers)
    (line : Nat) :
    ∃ xs z, s.elements = xs.map Value.number ∧ Number.IsExtreme before xs z ∧
      f.extremum pick [.set s] line = .ok (.number z) := by
  have mapped : s.elements ∈ Set.range (List.map Value.number) := by
    rw [Set.range_list_map]
    intro v hv
    obtain ⟨x, rfl⟩ := all v hv
    exact ⟨x, rfl⟩
  obtain ⟨xs, elements⟩ := mapped
  cases xs with
  | nil => exact absurd elements.symm nonempty
  | cons x xs =>
    refine ⟨x :: xs, xs.foldl pick x, elements.symm, h.isExtreme_foldl x xs, ?_⟩
    exact extremum_of_numbers x xs elements.symm line

/-! ## Same sets -/

theorem Members.AllNumbers.of_partners (all : t.AllNumbers)
    (partner : ∀ v ∈ s.elements, ∃ w ∈ t.elements, v.same w = true) : s.AllNumbers := by
  intro v hv
  obtain ⟨w, hw, same⟩ := partner v hv
  obtain ⟨y, rfl⟩ := all w hw
  cases v with
  | number x => exact ⟨x, rfl⟩
  | _ => cases same

theorem exists_same_number {xs ys : List Float}
    (partner : ∀ v ∈ xs.map Value.number, ∃ w ∈ ys.map Value.number, v.same w = true) :
    ∀ x ∈ xs, ∃ y ∈ ys, Number.same x y = true := by
  intro x hx
  obtain ⟨w, hw, same⟩ := partner (.number x) (List.mem_map_of_mem hx)
  obtain ⟨y, hy, rfl⟩ := List.mem_map.mp hw
  exact ⟨y, hy, same⟩

theorem Builtin.extremum_same (h : Number.Prefers before pick) (hs : s.WellFormed) (ht : t.WellFormed)
    (same : s.same t = true) (line : Nat) :
    SameOutcome (f.extremum pick [.set s] line) (f.extremum pick [.set t] line) := by
  obtain ⟨forth, back⟩ := (hs.same_iff_mutual ht).mp same
  have size : s.elements.length = t.elements.length := ht.length_congr same
  have empty_iff : s.elements = [] ↔ t.elements = [] := by
    rw [← List.length_eq_zero_iff, size, List.length_eq_zero_iff]
  by_cases empty : s.elements = []
  · rw [extremum_of_empty empty, extremum_of_empty (empty_iff.mp empty)]
    exact rfl
  · by_cases all : s.AllNumbers
    · have nonempty : t.elements ≠ [] := fun empty' => empty (empty_iff.mpr empty')
      obtain ⟨xs, z, elements, extreme, value⟩ := exists_extremum (f := f) h empty all line
      obtain ⟨ys, w, elements', extreme', value'⟩ := exists_extremum (f := f) h nonempty (all.of_partners back) line
      rw [elements, elements'] at forth back
      rw [value, value']
      exact extreme.same h extreme' (exists_same_number forth) (exists_same_number back)
    · have some' : ¬ t.AllNumbers := fun all' => all (all'.of_partners forth)
      rw [extremum_of_not_allNumbers all, extremum_of_not_allNumbers some']
      exact rfl

/-! ## Two numbers -/

theorem Members.elements_ofList_pair (v w : Value) :
    (ofList [v, w]).elements = if w.same v then [v] else [v, w] := by
  rw [elements_ofList, List.eraseDupsBy_cons]
  cases h : w.same v with
  | true => simp [h]
  | false => simp [h, List.eraseDupsBy_cons]

/-- Two numbers have the extreme of the set of both. If they are the same this set holds the first one alone. -/
theorem Builtin.extremum_pair (h : Number.Prefers before pick) {x y : Float} (zeros : ¬ Number.OppositeZeros x y)
    (line : Nat) :
    f.extremum pick [.number x, .number y] line =
      f.extremum pick [.set (.ofList [.number x, .number y])] line := by
  have pair : f.extremum pick [.number x, .number y] line = .ok (.number (pick x y)) := rfl
  have elements := Members.elements_ofList_pair (.number x) (.number y)
  rw [pair]
  cases same : (Value.number y).same (.number x) with
  | true =>
    obtain rfl : x = y := Number.eq_of_same (Number.same_symm same) zeros
    rw [same, if_pos rfl] at elements
    have one : pick x x = x := by
      by_cases hx : Number.place? x = none
      · exact h.skips_left hx
      · rcases h.takes hx hx with ⟨taken, -⟩ | ⟨taken, -⟩ <;> exact taken
    have single : f.extremum pick [.set (.ofList [.number x, .number x])] line = .ok (.number x) :=
      extremum_of_numbers x [] elements line
    rw [single, one]
  | false =>
    rw [same, if_neg Bool.false_ne_true] at elements
    have both : f.extremum pick [.set (.ofList [.number x, .number y])] line = .ok (.number (pick x y)) :=
      extremum_of_numbers x [y] elements line
    rw [both]

/-- A function with an order goes by a choice that prefers the numbers that come before others. -/
theorem Builtin.call_eq_extremum (hf : f.order? = some before) :
    ∃ pick, Number.Prefers before pick ∧
      (∀ v line, f.call [v] line = f.extremum pick [v] line) ∧
      ∀ v w line, f.call [v, w] line = f.extremum pick [v, w] line := by
  cases f with
  | min =>
    obtain rfl := Option.some.inj hf
    exact ⟨Number.lesser, Number.prefers_lesser, fun _ _ => rfl, fun _ _ _ => rfl⟩
  | max =>
    obtain rfl := Option.some.inj hf
    exact ⟨Number.greater, Number.prefers_greater, fun _ _ => rfl, fun _ _ _ => rfl⟩
  | _ => cases hf

/-- `min` and `max` of a set: an empty set is a fault, and so is an element that is not a number, wherever it stands.
Otherwise the value is the first of the elements. The outcome is that of any set that is the same, and that of two
numbers on their own is the outcome of the set of both, unless they are zeros of which one has a sign. -/
theorem Builtin.call_extremum (hf : f.order? = some before) (hs : s.WellFormed) (ht : t.WellFormed) (line : Nat) :
    (s.elements = [] →
      f.call [.set s] line = .error ⟨.invalidArgument s!"'{f.name}' of an empty set.", line⟩) ∧
    ((∃ v ∈ s.elements, ∀ x, v ≠ .number x) →
      f.call [.set s] line = .error ⟨.typeMismatch s!"Elements passed to '{f.name}' must be numbers.", line⟩) ∧
    (s.elements ≠ [] → s.AllNumbers → ∃ z, f.call [.set s] line = .ok (.number z) ∧ s.IsExtremum before z) ∧
    (s.same t = true → SameOutcome (f.call [.set s] line) (f.call [.set t] line)) ∧
    ∀ x y, ¬ Number.OppositeZeros x y →
      f.call [.number x, .number y] line = f.call [.set (.ofList [.number x, .number y])] line := by
  obtain ⟨pick, prefers, one, two⟩ := call_eq_extremum hf
  refine ⟨fun empty => ?_, fun ⟨v, hv, other⟩ => ?_, fun nonempty all => ?_, fun same => ?_, fun x y zeros => ?_⟩
  · rw [one, extremum_of_empty empty]
  · have stops : ¬ s.AllNumbers := fun all => (all v hv).elim other
    rw [one, extremum_of_not_allNumbers stops]
  · obtain ⟨xs, z, elements, extreme, value⟩ := exists_extremum (f := f) prefers nonempty all line
    rw [one]
    exact ⟨z, value, extreme.isExtremum hs elements⟩
  · rw [one, one]
    exact extremum_same prefers hs ht same line
  · rw [two, one]
    exact extremum_pair prefers zeros line

end Extremum

/-- A set of NaN, a zero and a two, and the same set in another order and with the other zero. A set of a number and one
of these sets has no greatest element. -/
theorem Builtin.call_extremum_zeros :
    let nan : Value := .number (.ofBits 0x7FF8000000000000)
    let s : Members := .ofList [nan, .number 0.0, .number 2.0]
    let t : Members := .ofList [.number 2.0, .number (-0.0), nan]
    let mixed : Members := .ofList [.number 2.0, .set s]
    s.WellFormed ∧ t.WellFormed ∧ mixed.WellFormed ∧ s.same t = true ∧
      (∃ z, Builtin.min.call [.set s] 1 = .ok (.number z) ∧ s.IsExtremum Number.le z) ∧
      SameOutcome (Builtin.min.call [.set s] 1) (Builtin.min.call [.set t] 1) ∧
      Builtin.min.call [.set .empty] 1 = .error ⟨.invalidArgument "'min' of an empty set.", 1⟩ ∧
      Builtin.max.call [.set mixed] 1 = .error ⟨.typeMismatch "Elements passed to 'max' must be numbers.", 1⟩ ∧
      Builtin.max.call [.number 2.0, nan] 1 = Builtin.max.call [.set (.ofList [.number 2.0, nan])] 1 := by
  intro nan s t mixed
  have hs : s.WellFormed := Members.wellFormed_ofList (by simp [nan])
  have ht : t.WellFormed := Members.wellFormed_ofList (by simp [nan])
  have hm : mixed.WellFormed := Members.wellFormed_ofList (by simp [Value.wellFormed_set.mpr hs])
  have same : s.same t = true := by decide +kernel
  have elements : s.elements = [nan, .number 0.0, .number 2.0] := rfl
  have all : s.AllNumbers := by
    intro v hv
    simp only [elements, nan, List.mem_cons, List.not_mem_nil, or_false] at hv
    rcases hv with rfl | rfl | rfl <;> exact ⟨_, rfl⟩
  have mixedElements : mixed.elements = [.number 2.0, .set s] := rfl
  have inner : ∃ v ∈ mixed.elements, ∀ x, v ≠ .number x := ⟨.set s, by simp [mixedElements], by simp⟩
  have zeros : ¬ Number.OppositeZeros 2.0 (.ofBits 0x7FF8000000000000) := by
    rintro ⟨zero, -⟩
    revert zero
    decide +kernel
  obtain ⟨-, -, extremum, alike, -⟩ := Builtin.call_extremum (f := .min) rfl hs ht 1
  obtain ⟨empty, -⟩ := Builtin.call_extremum (f := .min) rfl Members.wellFormed_empty Members.wellFormed_empty 1
  obtain ⟨-, stops, -, -, pair⟩ := Builtin.call_extremum (f := .max) rfl hm hm 1
  exact ⟨hs, ht, hm, same, extremum (by simp [elements]) all, alike same, empty rfl, stops inner,
    pair _ _ zeros⟩

end SetScript
