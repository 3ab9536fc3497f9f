/-
This file develops coalescing. Values arrive one at a time; each is sent on at
once or held back in a slot that has room for one, and a flush sends on what is
held back. A value that arrives makes the one held back obsolete, whether it is
sent or held itself. Values are numbered in the order of their arrival, and the
history of a slot records what has arrived and what has been sent on.
-/

import Mathlib.Data.List.Basic

namespace Coalescing

variable {Value : Type}

/-- What is done with a slot. -/
inductive Action (Value : Type)
  | send (value : Value)
  | hold (value : Value)
  | flush

/-- A slot with its history. -/
structure Slot (Value : Type) where
  received : List Value
  held : Option (Nat × Value)
  sent : List (Nat × Value)

namespace Slot

/-- A slot to which nothing has come. -/
def empty : Slot Value := ⟨[], none, []⟩

/-- A slot after an action. -/
def perform (slot : Slot Value) : Action Value → Slot Value
  | .send value =>
    ⟨slot.received ++ [value], none, slot.sent ++ [(slot.received.length, value)]⟩
  | .hold value =>
    ⟨slot.received ++ [value], some (slot.received.length, value), slot.sent⟩
  | .flush => ⟨slot.received, none, slot.sent ++ slot.held.toList⟩

/-- What has been sent, followed by what is held back. -/
def outgoing (slot : Slot Value) : List (Nat × Value) := slot.sent ++ slot.held.toList

/-- The outgoing values are in order of arrival, each at most once, and the latest value is the
last of them. -/
structure Coherent (slot : Slot Value) : Prop where
  latest : (slot.outgoing.getLast?).map Prod.snd = slot.received.getLast?
  ordered : slot.outgoing.Pairwise fun first second => first.1 < second.1
  numbered : ∀ entry ∈ slot.outgoing, slot.received[entry.1]? = some entry.2

theorem coherent_empty : (empty : Slot Value).Coherent where
  latest := rfl
  ordered := List.Pairwise.nil
  numbered := nofun

/-- The outgoing values among those that have arrived have earlier numbers. -/
theorem Coherent.number_lt {slot : Slot Value} (coherent : slot.Coherent)
    {entry : Nat × Value} (member : entry ∈ slot.outgoing) :
    entry.1 < slot.received.length :=
  (List.getElem?_eq_some_iff.mp (coherent.numbered entry member)).1

/-- A value that arrives goes to the end of what has been sent. -/
theorem Coherent.arrive {slot target : Slot Value} (coherent : slot.Coherent) (value : Value)
    (received : target.received = slot.received ++ [value])
    (outgoing : target.outgoing = slot.sent ++ [(slot.received.length, value)]) :
    target.Coherent where
  latest := by
    rw [outgoing, received, List.getLast?_concat, List.getLast?_concat, Option.map_some]
  ordered := by
    rw [outgoing, List.pairwise_append]
    refine ⟨(List.pairwise_append.mp coherent.ordered).1, List.pairwise_singleton _ _, ?_⟩
    intro entry member last memberLast
    rw [List.mem_singleton.mp memberLast]
    exact coherent.number_lt (List.mem_append_left _ member)
  numbered := by
    intro entry member
    rw [received]
    rcases List.mem_append.mp (outgoing ▸ member) with member | member
    · have member' : entry ∈ slot.outgoing := List.mem_append_left _ member
      rw [List.getElem?_append_left (coherent.number_lt member')]
      exact coherent.numbered entry member'
    · rw [List.mem_singleton.mp member]
      exact List.getElem?_concat_length

/-- An action keeps a slot coherent. -/
theorem Coherent.perform {slot : Slot Value} (coherent : slot.Coherent) (action : Action Value) :
    (slot.perform action).Coherent := by
  cases action with
  | send value =>
    refine coherent.arrive value rfl ?_
    rw [outgoing, Slot.perform, Option.toList_none, List.append_nil]
  | hold value => exact coherent.arrive value rfl rfl
  | flush =>
    have same : (slot.perform .flush).outgoing = slot.outgoing := by
      rw [outgoing, Slot.perform, Option.toList_none, List.append_nil, outgoing]
    exact ⟨same ▸ coherent.latest, same ▸ coherent.ordered, same ▸ coherent.numbered⟩

/-- Actions keep a slot coherent. -/
theorem Coherent.performAll {slot : Slot Value} (coherent : slot.Coherent)
    (actions : List (Action Value)) : (actions.foldl Slot.perform slot).Coherent := by
  induction actions generalizing slot with
  | nil => exact coherent
  | cons action rest inductionHypothesis => exact inductionHypothesis (coherent.perform action)

/-- What is held back, and otherwise what was sent last, is the latest value. -/
theorem Coherent.held_or_sent {slot : Slot Value} (coherent : slot.Coherent) :
    (slot.held.map Prod.snd).or (slot.sent.getLast?.map Prod.snd) = slot.received.getLast? := by
  rw [← coherent.latest, outgoing, List.getLast?_append]
  cases slot.held <;> rfl

end Slot

end Coalescing
