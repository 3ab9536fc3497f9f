/-
This file models the multi-producer single-consumer queue between the request
handlers and the matching engine as a machine that takes one memory access at a
time. The slots live in buffers of a fixed size that are linked to a list; the
producers append buffers, the consumer deletes those it has emptied and folds
away those it has emptied out of order. Every atomic load, store,
compare-exchange and fetch-add is a step of its own, and so are the reads of a
buffer's `prev` and the write of it; the reads of a field that never changes
after construction, the accesses to a slot's data and the updates of fields that
only the consumer reads belong to the step next to them. Addresses are never
reused, and a buffer that has been deleted can still be read, so that a run can
be followed past an access that the language leaves undefined.
-/

import Mathlib.Algebra.Group.Nat.Defs
import Mathlib.Logic.Function.Basic
import MarketSandbox.Library.Transition

namespace MarketSandbox.MPSCQueue

open Transition

/-- The number of slots of one buffer. -/
def bufferSize : Nat := 1620

/-- `PositionIndex` is an unsigned integer of 32 bits, whose arithmetic wraps. -/
def wrap (value : Nat) : Nat := value % 2 ^ 32

/-- The address of a `BufferList`. -/
abbrev Address := Nat

/-- The state of a slot. -/
inductive SlotState where
  | EMPTY
  | SET
  | HANDLED
  deriving DecidableEq, Repr

/-- The fields of the queue, and of every buffer by its address. -/
structure Memory (Value : Type) where
  headOfQueue : Address
  tailOfQueue : Address
  tail : Nat
  garbageListHead : Option Address
  next : Address → Option Address
  prev : Address → Option Address
  head : Address → Nat
  positionInQueue : Address → Nat
  isSet : Address → Nat → SlotState
  data : Address → Nat → Value
  /-- Whether the buffer's array of slots has been freed by `fold`. -/
  freed : Address → Bool
  /-- Whether the buffer has been deleted. -/
  deleted : Address → Bool
  /-- The next address the allocator hands out. -/
  allocated : Address

section Memory

variable {Value : Type}

/-- The queue after its construction. -/
def Memory.construct [Inhabited Value] : Memory Value where
  headOfQueue := 0
  tailOfQueue := 0
  tail := 0
  garbageListHead := none
  next _ := none
  prev _ := none
  head _ := 0
  positionInQueue _ := 1
  isSet _ _ := .EMPTY
  data _ _ := default
  freed _ := false
  deleted _ := false
  allocated := 1

/-- The number of elements up to the end of a buffer at this position. -/
def numberOfElements (positionInQueue : Nat) : Nat := wrap (bufferSize * positionInQueue)

/-- The number of elements before a buffer at this position. -/
def prevSize (positionInQueue : Nat) : Nat :=
  wrap (bufferSize * wrap (positionInQueue + 2 ^ 32 - 1))

/-- `new BufferList(tempTail, 0, tempTail->positionInQueue + 1)`. -/
def Memory.newBuffer (memory : Memory Value) (tempTail : Address) : Memory Value :=
  { memory with
    next := Function.update memory.next memory.allocated none
    prev := Function.update memory.prev memory.allocated (some tempTail)
    head := Function.update memory.head memory.allocated 0
    positionInQueue := Function.update memory.positionInQueue memory.allocated
      (wrap (memory.positionInQueue tempTail + 1))
    isSet := Function.update memory.isSet memory.allocated fun _ => .EMPTY
    allocated := memory.allocated + 1 }

/-- `tempTail->next.compare_exchange_strong(nullptr, newBuffer)` where the exchange
succeeds; where it fails the new buffer is deleted and nothing has changed. -/
def Memory.linkNext (memory : Memory Value) (tempTail : Address) : Memory Value :=
  { memory.newBuffer tempTail with
    next := Function.update (memory.newBuffer tempTail).next tempTail (some memory.allocated) }

/-- `tailOfQueue.compare_exchange_strong(tempTail, newBuffer)`. -/
def Memory.exchangeTail (memory : Memory Value) (tempTail newBuffer : Address) : Memory Value :=
  if memory.tailOfQueue = tempTail then { memory with tailOfQueue := newBuffer } else memory

/-- The state of a slot is stored. -/
def Memory.storeSlot (memory : Memory Value) (buffer : Address) (index : Nat)
    (slot : SlotState) : Memory Value :=
  { memory with
    isSet := Function.update memory.isSet buffer
      (Function.update (memory.isSet buffer) index slot) }

/-- A slot's data is written, and then its state is set. -/
def Memory.fillSlot (memory : Memory Value) (buffer : Address) (index : Nat)
    (data : Value) : Memory Value :=
  { memory.storeSlot buffer index .SET with
    data := Function.update memory.data buffer
      (Function.update (memory.data buffer) index data) }

/-- `headOfQueue->head++`. -/
def Memory.advanceHead (memory : Memory Value) : Memory Value :=
  { memory with
    head := Function.update memory.head memory.headOfQueue
      (memory.head memory.headOfQueue + 1) }

/-- `garbageListHead = g->next; delete g`. -/
def Memory.deleteGarbage (memory : Memory Value) (garbage : Address) : Memory Value :=
  { memory with
    garbageListHead := memory.next garbage
    deleted := Function.update memory.deleted garbage true }

/-- `delete headOfQueue; headOfQueue = next`. -/
def Memory.deleteHead (memory : Memory Value) (next : Address) : Memory Value :=
  { memory with
    headOfQueue := next
    deleted := Function.update memory.deleted memory.headOfQueue true }

/-- `next->prev = prev`. -/
def Memory.storePrev (memory : Memory Value) (buffer : Address) (prev : Option Address) :
    Memory Value :=
  { memory with prev := Function.update memory.prev buffer prev }

/-- `prev->next.store(next)`. -/
def Memory.storeNext (memory : Memory Value) (buffer next : Address) : Memory Value :=
  { memory with next := Function.update memory.next buffer (some next) }

/-- The folded buffer's slots are freed, and it is pushed on the list of garbage. -/
def Memory.discard (memory : Memory Value) (buffer : Address) : Memory Value :=
  { memory with
    freed := Function.update memory.freed buffer true
    next := Function.update memory.next buffer memory.garbageListHead
    garbageListHead := some buffer }

/-! ### Enqueue -/

/-- Where a producer stands in `enqueue`, with the variables it still uses. Each
constructor is named after the access that comes next. -/
inductive ProducerPc (Value : Type) where
  | idle
  | claim (data : Value)
  | loadTail (data : Value) (location : Nat)
  | compare (data : Value) (location : Nat) (tempTail : Address)
  | loadNext (data : Value) (location : Nat) (tempTail : Address)
  | exchangeNext (data : Value) (location : Nat) (tempTail : Address)
  | exchangeTail (data : Value) (location : Nat) (tempTail newBuffer : Address)
  | walk (data : Value) (location : Nat) (tempTail : Address) (isLastBuffer : Bool)
  | loadSlot (data : Value) (location prevSize : Nat) (tempTail : Address) (isLastBuffer : Bool)
  | publish (data : Value) (location prevSize : Nat) (tempTail : Address) (isLastBuffer : Bool)
  | preallocateNext (data : Value) (tempTail : Address)
  | preallocateTail (data : Value) (tempTail newBuffer : Address)
  | returning (data : Value)
  deriving DecidableEq, Repr

/-- The next access of a producer inside `enqueue`. -/
def stepProducer (memory : Memory Value) :
    ProducerPc Value → Option (Memory Value × ProducerPc Value)
  | .idle => none
  | .claim data =>
    some ({ memory with tail := wrap (memory.tail + 1) }, .loadTail data memory.tail)
  | .loadTail data location => some (memory, .compare data location memory.tailOfQueue)
  | .compare data location tempTail =>
    if numberOfElements (memory.positionInQueue tempTail) ≤ location then
      some (memory, .loadNext data location tempTail)
    else some (memory, .walk data location tempTail true)
  | .loadNext data location tempTail =>
    match memory.next tempTail with
    | none => some (memory, .exchangeNext data location tempTail)
    | some _ => some (memory, .loadTail data location)
  | .exchangeNext data location tempTail =>
    match memory.next tempTail with
    | none =>
      some (memory.linkNext tempTail, .exchangeTail data location tempTail memory.allocated)
    | some _ => some (memory, .loadTail data location)
  | .exchangeTail data location tempTail newBuffer =>
    some (memory.exchangeTail tempTail newBuffer, .loadTail data location)
  | .walk data location tempTail isLastBuffer =>
    if location < prevSize (memory.positionInQueue tempTail) then
      match memory.prev tempTail with
      | none => none
      | some prev => some (memory, .walk data location prev false)
    else
      some (memory, .loadSlot data location (prevSize (memory.positionInQueue tempTail))
        tempTail isLastBuffer)
  | .loadSlot data location prevSize tempTail isLastBuffer =>
    if memory.isSet tempTail (location - prevSize) = .EMPTY then
      some (memory, .publish data location prevSize tempTail isLastBuffer)
    else some (memory, .returning data)
  | .publish data location prevSize tempTail isLastBuffer =>
    if location - prevSize = bufferSize - 2 ∧ isLastBuffer = true then
      some (memory.fillSlot tempTail (location - prevSize) data, .preallocateNext data tempTail)
    else some (memory.fillSlot tempTail (location - prevSize) data, .returning data)
  | .preallocateNext data tempTail =>
    match memory.next tempTail with
    | none => some (memory.linkNext tempTail, .preallocateTail data tempTail memory.allocated)
    | some _ => some (memory, .returning data)
  | .preallocateTail data tempTail newBuffer =>
    some (memory.exchangeTail tempTail newBuffer, .returning data)
  | .returning _ => none

/-! ### Dequeue -/

/-- Where `moveToNextBuffer` was called from: the loop at the start of `dequeue`,
the loop over handled slots, or after a value has been taken. -/
inductive Caller (Value : Type) where
  | check
  | handled
  | taken (data : Value)
  deriving DecidableEq, Repr

/-- Where the consumer stands in `dequeue`, with the variables it still uses. Each
constructor is named after the access that comes next. -/
inductive ConsumerPc (Value : Type) where
  | idle
  | moveTail (caller : Caller Value)
  | moveNext (caller : Caller Value)
  | collect (caller : Caller Value) (next : Address)
  | readHandled
  | compareBuffer
  | compareTail
  | readSet
  | readEmpty
  | scan (tempHeadOfQueue : Address) (tempHead : Nat)
      (flagMoveToNewBuffer flagBufferAllHandled : Bool)
  | scanFlag (tempHeadOfQueue : Address) (tempHead : Nat)
      (flagMoveToNewBuffer flagBufferAllHandled : Bool)
  | scanNext (tempHeadOfQueue : Address)
  | foldTail (tempHeadOfQueue : Address)
  | foldNext (tempHeadOfQueue : Address)
  | foldPrev (tempHeadOfQueue next : Address) (prev : Option Address)
  | foldLink (tempHeadOfQueue next : Address) (prev : Option Address)
  | foldFree (tempHeadOfQueue next : Address)
  | rescan (tempHeadOfQueue : Address) (tempHead : Nat)
      (scanHeadOfQueue : Address) (scanHead : Nat)
  | returning (result : Option Value)
  deriving DecidableEq, Repr

/-- Where the consumer goes on after `moveToNextBuffer` has returned. -/
def resume (memory : Memory Value) : Caller Value → Bool → ConsumerPc Value
  | .check, true =>
    if bufferSize ≤ memory.head memory.headOfQueue then .moveTail .check else .readHandled
  | .check, false => .returning none
  | .handled, true => .readHandled
  | .handled, false => .returning none
  | .taken data, _ => .returning (some data)

/-- The call of `moveToNextBuffer`. -/
def moveToNextBuffer (memory : Memory Value) (caller : Caller Value) : ConsumerPc Value :=
  if bufferSize ≤ memory.head memory.headOfQueue then .moveTail caller
  else resume memory caller true

/-- The next access of the consumer inside `dequeue`. -/
def stepConsumer (memory : Memory Value) :
    ConsumerPc Value → Option (Memory Value × ConsumerPc Value)
  | .idle => none
  | .moveTail caller =>
    if memory.headOfQueue = memory.tailOfQueue then some (memory, resume memory caller false)
    else some (memory, .moveNext caller)
  | .moveNext caller =>
    match memory.next memory.headOfQueue with
    | none => some (memory, resume memory caller false)
    | some next => some (memory, .collect caller next)
  | .collect caller next =>
    match memory.garbageListHead with
    | some garbage =>
      if memory.positionInQueue garbage < memory.positionInQueue next then
        some (memory.deleteGarbage garbage, .collect caller next)
      else some (memory.deleteHead next, resume (memory.deleteHead next) caller true)
    | none => some (memory.deleteHead next, resume (memory.deleteHead next) caller true)
  | .readHandled =>
    if memory.isSet memory.headOfQueue (memory.head memory.headOfQueue) = .HANDLED then
      some (memory.advanceHead, moveToNextBuffer memory.advanceHead .handled)
    else some (memory, .compareBuffer)
  | .compareBuffer =>
    if memory.headOfQueue = memory.tailOfQueue then some (memory, .compareTail)
    else some (memory, .readSet)
  | .compareTail =>
    if memory.head memory.headOfQueue = memory.tail % bufferSize then
      some (memory, .returning none)
    else some (memory, .readSet)
  | .readSet =>
    if memory.isSet memory.headOfQueue (memory.head memory.headOfQueue) = .SET then
      some (memory.advanceHead, moveToNextBuffer memory.advanceHead
        (.taken (memory.data memory.headOfQueue (memory.head memory.headOfQueue))))
    else some (memory, .readEmpty)
  | .readEmpty =>
    if memory.isSet memory.headOfQueue (memory.head memory.headOfQueue) = .EMPTY then
      some (memory, .scan memory.headOfQueue (memory.head memory.headOfQueue) false true)
    else some (memory, .returning none)
  | .scan tempHeadOfQueue tempHead moved allHandled =>
    if memory.isSet tempHeadOfQueue tempHead = .SET then
      some (memory, .rescan tempHeadOfQueue tempHead memory.headOfQueue
        (memory.head memory.headOfQueue))
    else some (memory, .scanFlag tempHeadOfQueue tempHead moved allHandled)
  | .scanFlag tempHeadOfQueue tempHead moved allHandled =>
    let allHandled := allHandled && decide (memory.isSet tempHeadOfQueue tempHead = .HANDLED)
    if bufferSize ≤ tempHead + 1 then
      if allHandled && moved then some (memory, .foldTail tempHeadOfQueue)
      else some (memory, .scanNext tempHeadOfQueue)
    else some (memory, .scan tempHeadOfQueue (tempHead + 1) moved allHandled)
  | .scanNext tempHeadOfQueue =>
    match memory.next tempHeadOfQueue with
    | none => some (memory, .returning none)
    | some next => some (memory, .scan next (memory.head next) true true)
  | .foldTail tempHeadOfQueue =>
    if tempHeadOfQueue = memory.tailOfQueue then some (memory, .returning none)
    else some (memory, .foldNext tempHeadOfQueue)
  | .foldNext tempHeadOfQueue =>
    match memory.next tempHeadOfQueue with
    | none => some (memory, .returning none)
    | some next =>
      some (memory, .foldPrev tempHeadOfQueue next (memory.prev tempHeadOfQueue))
  | .foldPrev tempHeadOfQueue next prev =>
    some (memory.storePrev next prev, .foldLink tempHeadOfQueue next prev)
  | .foldLink tempHeadOfQueue next prev =>
    match prev with
    | none => none
    | some prev => some (memory.storeNext prev next, .foldFree tempHeadOfQueue next)
  | .foldFree tempHeadOfQueue next =>
    some (memory.discard tempHeadOfQueue, .scan next (memory.head next) true true)
  | .rescan tempHeadOfQueue tempHead scanHeadOfQueue scanHead =>
    if scanHeadOfQueue = tempHeadOfQueue ∧ tempHead ≤ scanHead then
      if tempHeadOfQueue = memory.headOfQueue ∧ tempHead = memory.head memory.headOfQueue then
        let stored := (memory.storeSlot tempHeadOfQueue tempHead .HANDLED).advanceHead
        some (stored, moveToNextBuffer stored (.taken (memory.data tempHeadOfQueue tempHead)))
      else
        some (memory.storeSlot tempHeadOfQueue tempHead .HANDLED,
          .returning (some (memory.data tempHeadOfQueue tempHead)))
    else if bufferSize ≤ scanHead then
      match memory.next scanHeadOfQueue with
      | none => none
      | some next => some (memory, .rescan tempHeadOfQueue tempHead next (memory.head next))
    else if memory.isSet scanHeadOfQueue scanHead = .SET then
      some (memory, .rescan scanHeadOfQueue scanHead memory.headOfQueue
        (memory.head memory.headOfQueue))
    else some (memory, .rescan tempHeadOfQueue tempHead scanHeadOfQueue (scanHead + 1))
  | .returning _ => none

end Memory

/-! ### The machine -/

/-- The memory, and where every producer and the consumer stand. -/
structure State (Producer Value : Type) where
  memory : Memory Value
  producers : Producer → ProducerPc Value
  consumer : ConsumerPc Value

/-- The steps: the calls and returns of the two operations, and the accesses in between. -/
inductive Label (Producer Value : Type) where
  | enqueueCall (producer : Producer) (data : Value)
  | enqueueReturn (producer : Producer) (data : Value)
  | dequeueCall
  | dequeueReturn (result : Option Value)
  | producer (producer : Producer)
  | consumer
  deriving DecidableEq, Repr

variable {Producer Value : Type} [DecidableEq Producer] [DecidableEq Value]

/-- A step of the machine, where the label's step can be taken. -/
def perform (state : State Producer Value) :
    Label Producer Value → Option (State Producer Value)
  | .enqueueCall producer data =>
    match state.producers producer with
    | .idle =>
      some { state with producers := Function.update state.producers producer (.claim data) }
    | _ => none
  | .enqueueReturn producer data =>
    if state.producers producer = .returning data then
      some { state with producers := Function.update state.producers producer .idle }
    else none
  | .dequeueCall =>
    match state.consumer with
    | .idle => some { state with consumer := resume state.memory .check true }
    | _ => none
  | .dequeueReturn result =>
    if state.consumer = .returning result then some { state with consumer := .idle } else none
  | .producer producer =>
    match stepProducer state.memory (state.producers producer) with
    | some (memory, pc) =>
      some { state with
        memory := memory
        producers := Function.update state.producers producer pc }
    | none => none
  | .consumer =>
    match stepConsumer state.memory state.consumer with
    | some (memory, pc) => some { state with memory := memory, consumer := pc }
    | none => none

/-! ### What each label does -/

section Inversion

variable {state target : State Producer Value}

theorem perform_enqueueCall {producer : Producer} {data : Value}
    (step : perform state (.enqueueCall producer data) = some target) :
    state.producers producer = .idle ∧ target = { state with
      producers := Function.update state.producers producer (.claim data) } := by
  cases pc : state.producers producer <;> simp only [perform, pc, reduceCtorEq] at step
  exact ⟨rfl, (Option.some_inj.mp step).symm⟩

theorem perform_enqueueReturn {producer : Producer} {data : Value}
    (step : perform state (.enqueueReturn producer data) = some target) :
    state.producers producer = .returning data ∧ target = { state with
      producers := Function.update state.producers producer .idle } := by
  by_cases pc : state.producers producer = .returning data
  · simp only [perform, if_pos pc, Option.some.injEq] at step
    exact ⟨pc, step.symm⟩
  · simp only [perform, if_neg pc, reduceCtorEq] at step

theorem perform_dequeueCall (step : perform state .dequeueCall = some target) :
    state.consumer = .idle ∧
      target = { state with consumer := resume state.memory .check true } := by
  cases pc : state.consumer <;> simp only [perform, pc, reduceCtorEq] at step
  exact ⟨rfl, (Option.some_inj.mp step).symm⟩

theorem perform_dequeueReturn {result : Option Value}
    (step : perform state (.dequeueReturn result) = some target) :
    state.consumer = .returning result ∧ target = { state with consumer := .idle } := by
  by_cases pc : state.consumer = .returning result
  · simp only [perform, if_pos pc, Option.some.injEq] at step
    exact ⟨pc, step.symm⟩
  · simp only [perform, if_neg pc, reduceCtorEq] at step

theorem perform_producer {producer : Producer}
    (step : perform state (.producer producer) = some target) : ∃ memory pc,
    stepProducer state.memory (state.producers producer) = some (memory, pc) ∧
      target = { state with
        memory := memory
        producers := Function.update state.producers producer pc } := by
  cases next : stepProducer state.memory (state.producers producer) with
  | none => simp only [perform, next, reduceCtorEq] at step
  | some result =>
    simp only [perform, next, Option.some.injEq] at step
    exact ⟨result.1, result.2, rfl, step.symm⟩

theorem perform_consumer (step : perform state .consumer = some target) : ∃ memory pc,
    stepConsumer state.memory state.consumer = some (memory, pc) ∧
      target = { state with memory := memory, consumer := pc } := by
  cases next : stepConsumer state.memory state.consumer with
  | none => simp only [perform, next, reduceCtorEq] at step
  | some result =>
    simp only [perform, next, Option.some.injEq] at step
    exact ⟨result.1, result.2, rfl, step.symm⟩

end Inversion

/-- The queue after its construction, with nobody inside an operation. -/
def State.start [Inhabited Value] : State Producer Value where
  memory := .construct
  producers _ := .idle
  consumer := .idle

/-- The queue as a transition system. -/
def system [Inhabited Value] : System (State Producer Value) (Label Producer Value) where
  initial state := state = .start
  step source label target := perform source label = some target

/-- The state after a sequence of steps, where they are allowed and can be taken. -/
def execute (allowed : State Producer Value → Label Producer Value → Prop)
    [∀ state label, Decidable (allowed state label)] (state : State Producer Value) :
    List (Label Producer Value) → Option (State Producer Value)
  | [] => some state
  | label :: labels =>
    if allowed state label then
      match perform state label with
      | some next => execute allowed next labels
      | none => none
    else none

theorem steps_of_execute [Inhabited Value]
    {allowed : State Producer Value → Label Producer Value → Prop}
    [∀ state label, Decidable (allowed state label)] {labels : List (Label Producer Value)}
    {first last : State Producer Value} (executed : execute allowed first labels = some last) :
    Steps (system.restrict allowed) first labels last := by
  induction labels generalizing first with
  | nil =>
    obtain rfl := Option.some_inj.mp executed
    exact .nil _
  | cons label labels inductionHypothesis =>
    rw [execute] at executed
    split at executed
    next permitted =>
      split at executed
      next next step => exact .cons ⟨permitted, step⟩ (inductionHypothesis executed)
      next => exact absurd executed nofun
    next => exact absurd executed nofun

/-- A sequence of steps that can be executed from the start is a run. -/
theorem run_of_execute [Inhabited Value]
    {allowed : State Producer Value → Label Producer Value → Prop}
    [∀ state label, Decidable (allowed state label)] {labels : List (Label Producer Value)}
    (executed : (execute allowed .start labels).isSome = true) :
    ∃ state, Run (system.restrict allowed) labels state := by
  obtain ⟨state, reached⟩ := Option.isSome_iff_exists.mp executed
  exact ⟨state, Run.append (.start rfl) (steps_of_execute reached)⟩

end MarketSandbox.MPSCQueue
