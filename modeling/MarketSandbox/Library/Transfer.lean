/-
This file develops transfers in pieces. A loop wants a number of items moved; it
asks an operation for what is missing, the operation moves some of it or fails,
and the loop goes on behind what has been moved until nothing is missing. There
are two rules: what the operation keeps holds at the end of a transfer that
succeeds, and a transfer succeeds when the operation always makes progress.
-/

import Mathlib.Data.Nat.Basic

namespace Transfer

/-! ### Schedules -/

/-- How many of the items it is offered each call moves; none when it fails. -/
structure Schedule where
  amount : Nat → Nat → Nat
  atMost : ∀ call offered, amount call offered ≤ offered

/-- Every call that is offered something moves something. -/
def Schedule.Positive (schedule : Schedule) : Prop :=
  ∀ call offered, 0 < offered → 0 < schedule.amount call offered

/-- The schedule that moves at most a number of items at each call. -/
def Schedule.pieces (size : Nat) : Schedule := ⟨fun _ offered => min size offered,
  fun _ _ => min_le_right _ _⟩

theorem Schedule.pieces_positive {size : Nat} (positive : 0 < size) :
    (pieces size).Positive := fun _ _ something => lt_min positive something

/-! ### The loop -/

variable {State : Type} (operation : State → Nat → Nat → Nat × State)

/-- Ask for what is missing behind an offset until nothing is missing or the operation fails. -/
def transferAll (length offset : Nat) (state : State) : Bool × State :=
  if offset < length then
    let moved := operation state offset (length - offset)
    if moved.1 = 0 then (false, moved.2)
    else transferAll length (offset + moved.1) moved.2
  else (true, state)
termination_by length - offset
decreasing_by
  have positive : 0 < (operation state offset (length - offset)).1 := Nat.pos_of_ne_zero ‹_›
  omega

variable {operation} {length : Nat}

/-- What every piece keeps holds at the end of a transfer that succeeds. -/
theorem transferAll_keeps (property : Nat → State → Prop)
    (keeps : ∀ offset state, offset < length → property offset state →
      (operation state offset (length - offset)).1 ≠ 0 →
        offset + (operation state offset (length - offset)).1 ≤ length ∧
          property (offset + (operation state offset (length - offset)).1)
            (operation state offset (length - offset)).2)
    {offset : Nat} {state : State} (inside : offset ≤ length) (start : property offset state)
    (succeeds : (transferAll operation length offset state).1 = true) :
    property length (transferAll operation length offset state).2 := by
  induction offset, state using transferAll.induct operation length with
  | case1 offset state less moved nothing =>
    rw [transferAll, if_pos less, if_pos nothing] at succeeds
    exact absurd succeeds nofun
  | case2 offset state less moved something inductionHypothesis =>
    obtain ⟨within, kept⟩ := keeps offset state less start something
    rw [transferAll, if_pos less, if_neg something] at succeeds ⊢
    exact inductionHypothesis within kept succeeds
  | case3 offset state done =>
    rw [transferAll, if_neg done]
    rwa [show length = offset by omega]

/-- A transfer of pieces that make progress succeeds. -/
theorem transferAll_succeeds (property : Nat → State → Prop)
    (progresses : ∀ offset state, offset < length → property offset state →
      (operation state offset (length - offset)).1 ≠ 0 ∧
        property (offset + (operation state offset (length - offset)).1)
          (operation state offset (length - offset)).2)
    {offset : Nat} {state : State} (start : property offset state) :
    (transferAll operation length offset state).1 = true := by
  induction offset, state using transferAll.induct operation length with
  | case1 offset state less moved nothing =>
    exact absurd nothing (progresses offset state less start).1
  | case2 offset state less moved something inductionHypothesis =>
    rw [transferAll, if_pos less, if_neg something]
    exact inductionHypothesis (progresses offset state less start).2
  | case3 offset state done => rw [transferAll, if_neg done]

end Transfer
