/-
This file records the view along a run of the machine: every step changes the
view by the operation it performs, and the operations a producer performs are
such that the other threads keep what they know.
-/

import MarketSandbox.Queue.Assertions
import MarketSandbox.Queue.Layout

namespace MarketSandbox.MPSCQueue

open Transition

variable {Value : Type}

/-! ### The operation a step performs -/

/-- A buffer is appended where the exchange of `next` succeeds on the last buffer. -/
def View.observeLink (view : View Value) (memory : Memory Value) (tempTail : Address) :
    View Value :=
  if tempTail = view.buffer (view.length - 1) then view.append memory.allocated else view

/-- The tail moves where its exchange succeeds. -/
def View.observeExchange (view : View Value) (memory : Memory Value) (tempTail : Address) :
    View Value :=
  if memory.tailOfQueue = tempTail then view.advanceTail else view

/-- The view after a producer's next access. -/
def View.observeProducer (view : View Value) (memory : Memory Value) :
    ProducerPc Value → View Value
  | .claim data => view.claim data
  | .exchangeNext _ _ tempTail =>
    if memory.next tempTail = none then view.observeLink memory tempTail else view
  | .exchangeTail _ _ tempTail _ => view.observeExchange memory tempTail
  | .publish _ location _ _ _ => view.publish location
  | .preallocateNext _ tempTail =>
    if memory.next tempTail = none then view.observeLink memory tempTail else view
  | .preallocateTail _ tempTail _ => view.observeExchange memory tempTail
  | _ => view

/-- The number of a buffer, from its position in the queue. -/
def Memory.indexOf (memory : Memory Value) (buffer : Address) : Nat :=
  memory.positionInQueue buffer - 1

/-- The view after the consumer's next access. -/
def View.observeConsumer (view : View Value) (memory : Memory Value) :
    ConsumerPc Value → View Value
  | .collect _ next =>
    match memory.garbageListHead with
    | some garbage =>
      if memory.positionInQueue garbage < memory.positionInQueue next then view
      else view.moveHead (memory.indexOf next)
    | none => view.moveHead (memory.indexOf next)
  | .readHandled =>
    if memory.isSet memory.headOfQueue (memory.head memory.headOfQueue) = .HANDLED then
      view.advance
    else view
  | .readSet =>
    if memory.isSet memory.headOfQueue (memory.head memory.headOfQueue) = .SET then view.take
    else view
  | .foldPrev tempHeadOfQueue _ _ => view.unlinkBack (memory.indexOf tempHeadOfQueue)
  | .foldLink tempHeadOfQueue _ _ => view.unlink (memory.indexOf tempHeadOfQueue)
  | .rescan tempHeadOfQueue tempHead scanHeadOfQueue scanHead =>
    if scanHeadOfQueue = tempHeadOfQueue ∧ tempHead ≤ scanHead then
      if tempHeadOfQueue = memory.headOfQueue ∧ tempHead = memory.head memory.headOfQueue then
        (view.handle (bufferSize * memory.indexOf tempHeadOfQueue + tempHead)).advance
      else view.handle (bufferSize * memory.indexOf tempHeadOfQueue + tempHead)
    else view
  | _ => view

section Observed

variable {Producer : Type} [DecidableEq Producer] [DecidableEq Value]

/-- The view after a step. -/
def View.observe (view : View Value) (state : State Producer Value) :
    Label Producer Value → View Value
  | .producer producer => view.observeProducer state.memory (state.producers producer)
  | .consumer => view.observeConsumer state.memory state.consumer
  | _ => view

/-- The machine together with its view. -/
def observed [Inhabited Value] :
    System (State Producer Value × View Value) (Label Producer Value) :=
  system.withHistory .initial View.observe

end Observed

/-! ### The operations of a producer -/

namespace View

variable {view : View Value}

theorem Produces.refl (view : View Value) : view.Produces view where
  claimed := List.prefix_rfl
  length_le := le_rfl
  buffer _ _ := rfl
  tail_le := le_rfl
  append different := absurd rfl different
  filled _ filled := filled
  kept _ _ earlier := earlier
  headIndex := rfl
  head := rfl
  live := Or.inl ⟨rfl, rfl⟩
  slot _ _ := rfl
  handled _ handled := handled
  earlier _ _ _ earlier := earlier

theorem produces_claim (data : Value) : view.Produces (view.claim data) :=
  { Produces.refl view with
    claimed := List.prefix_append _ _
    kept := fun _ _ => Or.inr
    earlier := by
      intro early late claimed earlier
      rcases earlier with ⟨newest, _⟩ | earlier
      · exact absurd newest (Nat.ne_of_lt claimed)
      · exact earlier }

theorem produces_append (address : Address) (last : view.tailIndex + 1 = view.length) :
    view.Produces (view.append address) :=
  { Produces.refl view with
    length_le := Nat.le_succ _
    buffer := fun _ bound => Function.update_of_ne (Nat.ne_of_lt bound) ..
    append := fun _ => last
    live := Or.inr ⟨rfl, rfl⟩ }

theorem produces_advanceTail : view.Produces view.advanceTail :=
  { Produces.refl view with tail_le := Nat.le_succ _ }

theorem slot_publish_of_filled {location other : Nat} (owned : view.slot location = .EMPTY)
    (filled : view.slot other ≠ .EMPTY) :
    (view.publish location).slot other = view.slot other := by
  rw [slot_publish, if_neg]
  rintro rfl
  exact filled owned

theorem produces_publish {location : Nat} (owned : view.slot location = .EMPTY) :
    view.Produces (view.publish location) :=
  { Produces.refl view with
    filled := fun other filled => by rwa [slot_publish_of_filled owned filled]
    slot := fun other filled => slot_publish_of_filled owned filled
    handled := by
      intro other handled
      rw [slot_publish] at handled
      split at handled
      · exact SlotState.noConfusion handled
      · exact handled }

/-- A publication fills no other slot. -/
theorem publish_kept {location other : Nat} (different : other ≠ location)
    (empty : view.slot other = .EMPTY) : (view.publish location).slot other = .EMPTY := by
  rw [slot_publish, if_neg different, empty]

/-! ### The operations of the consumer -/

/-- The operations of the consumer claim nothing, append nothing and fill nothing. -/
structure Consumes (view grown : View Value) : Prop where
  claimed : grown.channel.claimed = view.channel.claimed
  earlier : grown.channel.earlier = view.channel.earlier
  length : grown.length = view.length
  buffer : grown.buffer = view.buffer
  tailIndex : grown.tailIndex = view.tailIndex
  empty_iff : ∀ location, grown.slot location = .EMPTY ↔ view.slot location = .EMPTY

theorem Consumes.refl (view : View Value) : view.Consumes view :=
  ⟨rfl, rfl, rfl, rfl, rfl, fun _ => Iff.rfl⟩

theorem Consumes.trans {grown final : View Value} (first : view.Consumes grown)
    (second : grown.Consumes final) : view.Consumes final where
  claimed := second.claimed.trans first.claimed
  earlier := second.earlier.trans first.earlier
  length := second.length.trans first.length
  buffer := second.buffer.trans first.buffer
  tailIndex := second.tailIndex.trans first.tailIndex
  empty_iff location := (second.empty_iff location).trans (first.empty_iff location)

theorem consumes_handle {location : Nat} (set : view.slot location = .SET) :
    view.Consumes (view.handle location) :=
  { Consumes.refl view with
    empty_iff := by
      intro other
      rw [slot_handle]
      by_cases same : other = location
      · simp [same, set]
      · simp [same] }

theorem Consumes.grows {grown : View Value} (consumes : view.Consumes grown) :
    view.Grows grown where
  claimed := consumes.claimed ▸ List.prefix_rfl
  length_le := consumes.length.ge
  buffer _ _ := by rw [consumes.buffer]
  tail_le := consumes.tailIndex.ge
  append different := absurd consumes.length different
  filled location := mt (consumes.empty_iff location).mp
  kept early late earlier := consumes.earlier ▸ earlier

end View

end MarketSandbox.MPSCQueue
