/-
This file develops sums of 64-bit signed integers, added up one after another.
A sum is defined when no partial sum leaves the range; a sum of nonnegative
integers is defined exactly when their total is in the range.
-/

import Mathlib.Algebra.Order.BigOperators.Group.List
import Mathlib.Algebra.Order.Group.Int
import Mathlib.Algebra.Ring.Int.Defs

namespace CheckedSum

/-- The range of a 64-bit signed integer. -/
def InRange (value : Int) : Prop := -2 ^ 63 ≤ value ∧ value < 2 ^ 63

instance (value : Int) : Decidable (InRange value) := inferInstanceAs (Decidable (_ ∧ _))

/-- Signed addition; `none` is overflow. -/
def add (left right : Int) : Option Int :=
  if InRange (left + right) then some (left + right) else none

/-- Add values to an accumulator, one after another. -/
def sumFrom : Int → List Int → Option Int
  | accumulator, [] => some accumulator
  | accumulator, value :: rest => do sumFrom (← add accumulator value) rest

/-- Add values up from zero. -/
def sum (values : List Int) : Option Int := sumFrom 0 values

/-- A defined sum is the mathematical one. -/
theorem sumFrom_eq {accumulator total : Int} {values : List Int}
    (defined : sumFrom accumulator values = some total) : total = accumulator + values.sum := by
  induction values generalizing accumulator with
  | nil =>
    rw [List.sum_nil, add_zero]
    exact (Option.some.inj defined).symm
  | cons value rest inductionHypothesis =>
    rw [sumFrom, Option.bind_eq_bind, Option.bind_eq_some_iff] at defined
    obtain ⟨next, added, later⟩ := defined
    unfold add at added
    split_ifs at added
    obtain rfl := Option.some.inj added
    rw [inductionHypothesis later, List.sum_cons, add_assoc]

theorem sumFrom_of_nonneg {accumulator : Int} {values : List Int} (start : 0 ≤ accumulator)
    (nonneg : ∀ value ∈ values, 0 ≤ value) (fits : accumulator + values.sum < 2 ^ 63) :
    sumFrom accumulator values = some (accumulator + values.sum) := by
  induction values generalizing accumulator with
  | nil => rw [sumFrom, List.sum_nil, add_zero]
  | cons value rest inductionHypothesis =>
    have valueNonneg := nonneg value List.mem_cons_self
    have restNonneg := fun other member => nonneg other (List.mem_cons_of_mem value member)
    have restSum := List.sum_nonneg restNonneg
    rw [List.sum_cons] at fits
    have inRange : InRange (accumulator + value) := ⟨by omega, by omega⟩
    rw [sumFrom, add, if_pos inRange, List.sum_cons, ← add_assoc]
    exact inductionHypothesis (by omega) restNonneg (by omega)

theorem sumFrom_fits {accumulator total : Int} {values : List Int}
    (start : accumulator < 2 ^ 63) (defined : sumFrom accumulator values = some total) :
    total < 2 ^ 63 := by
  induction values generalizing accumulator with
  | nil =>
    obtain rfl := Option.some.inj defined
    exact start
  | cons value rest inductionHypothesis =>
    rw [sumFrom, Option.bind_eq_bind, Option.bind_eq_some_iff] at defined
    obtain ⟨next, added, later⟩ := defined
    unfold add at added
    split_ifs at added with inRange
    obtain rfl := Option.some.inj added
    exact inductionHypothesis inRange.2 later

/-- Nonnegative values are summed exactly when their total is in the range. -/
theorem sum_eq_some_iff {values : List Int} (nonneg : ∀ value ∈ values, 0 ≤ value) (total : Int) :
    sum values = some total ↔ total = values.sum ∧ values.sum < 2 ^ 63 := by
  constructor
  · intro defined
    have isSum := sumFrom_eq defined
    have fits := sumFrom_fits (by decide) defined
    rw [zero_add] at isSum
    exact ⟨isSum, isSum ▸ fits⟩
  · rintro ⟨rfl, fits⟩
    have summed := sumFrom_of_nonneg le_rfl nonneg (by rwa [zero_add])
    rwa [zero_add] at summed

/-! ### Sums of several lists -/

/-- A list is traversed when each of its elements is. -/
theorem mapM_eq_some_map {Item Value : Type} (compute : Item → Option Value)
    (value : Item → Value) {items : List Item}
    (each : ∀ item ∈ items, compute item = some (value item)) :
    items.mapM compute = some (items.map value) := by
  induction items with
  | nil => rfl
  | cons item rest inductionHypothesis =>
    obtain ⟨first, later⟩ := List.forall_mem_cons.mp each
    rw [List.mapM_cons, first, inductionHypothesis later]
    rfl

/-- Each element of a traversed list is. -/
theorem defined_of_mapM {Item Value : Type} {compute : Item → Option Value} {items : List Item}
    {values : List Value} (traversed : items.mapM compute = some values) :
    ∀ item ∈ items, ∃ value, compute item = some value := by
  induction items generalizing values with
  | nil => exact fun _ member => nomatch member
  | cons item rest inductionHypothesis =>
    simp only [List.mapM_cons, Option.bind_eq_bind, Option.pure_def, Option.bind_eq_some_iff]
      at traversed
    obtain ⟨first, isFirst, others, areOthers, _⟩ := traversed
    exact List.forall_mem_cons.mpr ⟨⟨first, isFirst⟩, inductionHypothesis areOthers⟩

end CheckedSum
