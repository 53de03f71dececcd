import Mathlib.Logic.Function.Basic
import SetScript.Proofs.Value.Order
/-!
# Sets refine ordered lists

A set holds its elements twice, in a list and in an index. To those who call its operations it is the list alone: a list
without two same values, in the order in which they came in. Any calls, on any number of sets and in any order, have
the same answers as on such lists (`run_refines`); one call keeps list and set in step (`perform_refines`).
-/

namespace SetScript

variable {σ : Type}

/-! ## Calls -/

/-- The operations of sets, whatever the sets are held in. -/
structure SetInterface (σ : Type) where
  new : σ
  /-- The set with a value in it, and whether the value is new there. -/
  insert : σ → Value → Bool × σ
  collect : List Value → σ
  union : σ → σ → σ
  inter : σ → σ → σ
  contains : σ → Value → Bool
  subset : σ → σ → Bool
  length : σ → Nat

/-- A call of an operation on sets that are kept under numbers. A set that is made is put under `target`. -/
inductive SetCall where
  | new (target : Nat)
  | insert (target : Nat) (v : Value)
  | collect (target : Nat) (values : List Value)
  | union (target left right : Nat)
  | inter (target left right : Nat)
  | contains (source : Nat) (v : Value)
  | subset (left right : Nat)
  | length (source : Nat)

/-- The values that a call hands over. -/
def SetCall.values : SetCall → List Value
  | .insert _ v | .contains _ v => [v]
  | .collect _ values => values
  | .new _ | .union _ _ _ | .inter _ _ _ | .subset _ _ | .length _ => []

/-- The answer to a call. -/
inductive SetAnswer where
  | done
  | truth (b : Bool)
  | count (n : Nat)
  deriving DecidableEq

namespace SetInterface

/-- The answer to a call, and the sets after it. -/
def perform (operations : SetInterface σ) (sets : Nat → σ) : SetCall → SetAnswer × (Nat → σ)
  | .new target => (.done, Function.update sets target operations.new)
  | .insert target v =>
    let result := operations.insert (sets target) v
    (.truth result.1, Function.update sets target result.2)
  | .collect target values => (.done, Function.update sets target (operations.collect values))
  | .union target left right => (.done, Function.update sets target (operations.union (sets left) (sets right)))
  | .inter target left right => (.done, Function.update sets target (operations.inter (sets left) (sets right)))
  | .contains source v => (.truth (operations.contains (sets source) v), sets)
  | .subset left right => (.truth (operations.subset (sets left) (sets right)), sets)
  | .length source => (.count (operations.length (sets source)), sets)

/-- The answers to calls that are made one after the other, and the sets after all of them. -/
def run (operations : SetInterface σ) (sets : Nat → σ) : List SetCall → List SetAnswer × (Nat → σ)
  | [] => ([], sets)
  | call :: calls =>
    let first := operations.perform sets call
    let others := operations.run first.2 calls
    (first.1 :: others.1, others.2)

/-- Sets with an index. -/
def members : SetInterface Members where
  new := Members.empty
  insert := Members.insert
  collect := Members.ofList
  union := Members.union
  inter := Members.inter
  contains := Members.contains
  subset := Members.subset
  length := Members.length

/-- Sets as lists. A new value comes last, an old one changes nothing. Of same values that are collected the first one
is kept. A union is the first list with what is not in it of the second behind, and an intersection is what the
second list holds of the first. -/
def lists : SetInterface (List Value) where
  new := []
  insert vs v := if vs.any v.same then (false, vs) else (true, vs ++ [v])
  collect vs := vs.eraseDupsBy Value.same
  union vs ws := vs ++ ws.filter fun w => !vs.any w.same
  inter vs ws := vs.filter fun v => ws.any v.same
  contains vs v := vs.any v.same
  subset vs ws := vs.all fun v => ws.any v.same
  length vs := vs.length

theorem lists_insert (vs : List Value) (v : Value) :
    lists.insert vs v = (!vs.any v.same, if vs.any v.same then vs else vs ++ [v]) := by
  simp only [lists]
  cases vs.any v.same <;> rfl

end SetInterface

/-! ## Sets and lists in step -/

/-- Under each number stand a set that is built by the operations and the list of its elements. -/
def InStep (sets : Nat → Members) (lists : Nat → List Value) : Prop :=
  ∀ place, (sets place).Built ∧ (sets place).elements = lists place

namespace InStep

variable {sets : Nat → Members} {lists : Nat → List Value}

theorem empty : InStep (fun _ => .empty) fun _ => [] := fun _ => ⟨.empty, rfl⟩

theorem update (h : InStep sets lists) (target : Nat) {s : Members} (built : s.Built) {vs : List Value}
    (elements : s.elements = vs) : InStep (Function.update sets target s) (Function.update lists target vs) := by
  intro place
  by_cases hp : place = target
  · subst hp
    rw [Function.update_self, Function.update_self]
    exact ⟨built, elements⟩
  · rw [Function.update_of_ne hp, Function.update_of_ne hp]
    exact h place

theorem contains_eq (h : InStep sets lists) (place : Nat) (v : Value) :
    (sets place).contains v = (lists place).any v.same := by
  obtain ⟨built, elements⟩ := h place
  rw [built.wellFormed.contains_eq_any, elements]

/-- One call has the same answer on both, and leaves both in step. -/
theorem perform_refines (h : InStep sets lists) (call : SetCall) (built : ∀ v ∈ call.values, v.Built) :
    (SetInterface.members.perform sets call).1 = (SetInterface.lists.perform lists call).1 ∧
      InStep (SetInterface.members.perform sets call).2 (SetInterface.lists.perform lists call).2 := by
  cases call with
  | new target => exact ⟨rfl, h.update target .empty rfl⟩
  | insert target v =>
    have made : ((sets target).insert v).2.Built := .insert (h target).1 (built v List.mem_cons_self)
    have isNew := (sets target).isNew_insert v
    have elements := (sets target).elements_insert v
    rw [h.contains_eq target v] at isNew elements
    rw [(h target).2] at elements
    -- Both sides look for the value in the same way, so both add it or neither does.
    rw [SetInterface.perform, SetInterface.perform, SetInterface.lists_insert]
    exact ⟨congrArg SetAnswer.truth isNew, h.update target made elements⟩
  | collect target values => exact ⟨rfl, h.update target (.ofList built) (Members.elements_ofList values)⟩
  | union target left right =>
    have elements := (h left).1.wellFormed.elements_union (h right).1.wellFormed
    rw [(h left).2, (h right).2] at elements
    exact ⟨rfl, h.update target (.union (h left).1 (h right).1) elements⟩
  | inter target left right =>
    have elements := (h left).1.wellFormed.elements_inter (h right).1.wellFormed
    rw [(h left).2, (h right).2] at elements
    exact ⟨rfl, h.update target (.inter (h left).1 (h right).1) elements⟩
  | contains source v => exact ⟨congrArg SetAnswer.truth (h.contains_eq source v), h⟩
  | subset left right =>
    have included := (h right).1.wellFormed.subset_eq_all (sets left)
    rw [(h left).2, (h right).2] at included
    exact ⟨congrArg SetAnswer.truth included, h⟩
  | length source => exact ⟨congrArg (SetAnswer.count ∘ List.length) (h source).2, h⟩

theorem run_refines (h : InStep sets lists) (calls : List SetCall)
    (built : ∀ call ∈ calls, ∀ v ∈ call.values, v.Built) :
    (SetInterface.members.run sets calls).1 = (SetInterface.lists.run lists calls).1 ∧
      InStep (SetInterface.members.run sets calls).2 (SetInterface.lists.run lists calls).2 := by
  induction calls generalizing sets lists with
  | nil => exact ⟨rfl, h⟩
  | cons call calls ih =>
    rw [List.forall_mem_cons] at built
    obtain ⟨answer, step⟩ := h.perform_refines call built.1
    obtain ⟨answers, final⟩ := ih step built.2
    exact ⟨congrArg₂ List.cons answer answers, final⟩

end InStep

/-- Whatever is called, in whatever order and on however many sets, with values that can be built: sets with an index
answer as lists do, their elements are the lists, and they can themselves be put into other sets. -/
theorem SetInterface.members_refine_lists (calls : List SetCall)
    (built : ∀ call ∈ calls, ∀ v ∈ call.values, v.Built) :
    let run := members.run (fun _ => members.new) calls
    let run' := lists.run (fun _ => lists.new) calls
    run.1 = run'.1 ∧ ∀ place, (run.2 place).elements = run'.2 place ∧ (Value.set (run.2 place)).Built := by
  intro run run'
  obtain ⟨answers, final⟩ := InStep.empty.run_refines calls built
  exact ⟨answers, fun place => ⟨(final place).2, .set (final place).1⟩⟩

/-- Two sets with zeros of either sign and with one set in two orders. -/
theorem SetInterface.members_refine_lists_zeros :
    let inner : Value := .set (.ofList [.nil, .bool true])
    let inner' : Value := .set (.ofList [.bool true, .nil])
    let calls : List SetCall :=
      [.insert 0 (.number 0.0), .insert 0 inner, .insert 0 (.number (-0.0)), .insert 0 inner',
        .collect 1 [inner', .number (-0.0), .string "s", inner], .length 1, .subset 0 1, .subset 1 0,
        .union 2 0 1, .length 2, .inter 0 2 0, .contains 0 (.string "s"), .contains 2 inner']
    (∀ call ∈ calls, ∀ v ∈ call.values, v.Built) ∧
      (members.run (fun _ => members.new) calls).1 =
        [.truth true, .truth true, .truth false, .truth false, .done, .count 3, .truth true, .truth false, .done,
          .count 3, .done, .truth false, .truth true] := by
  intro inner inner' calls
  have hi : inner.Built := .set (.ofList (by simp [Value.Built.nil, Value.Built.bool]))
  have hi' : inner'.Built := .set (.ofList (by simp [Value.Built.nil, Value.Built.bool]))
  have built : ∀ call ∈ calls, ∀ v ∈ call.values, v.Built := by
    simp [calls, SetCall.values, hi, hi', Value.Built.number, Value.Built.string]
  refine ⟨built, (members_refine_lists calls built).1.trans ?_⟩
  decide +kernel

end SetScript
