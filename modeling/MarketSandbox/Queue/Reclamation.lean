/-
This file says when the buffers are reclaimed safely. It lists, for every step,
the buffers whose fields and the buffers whose slots it reads or writes, and
proves that in a run in which no counter wraps no step goes to a buffer that has
been deleted or to slots that have been freed, as long as the consumer deletes no
buffer behind which a producer is about to link another one. A buffer on the walk
back to an empty slot, a buffer that is folded away and the buffers the consumer
itself uses are safe in every such run.
-/

import MarketSandbox.Queue.Chain
import MarketSandbox.Queue.Garbage
import MarketSandbox.Queue.Waiting

namespace MarketSandbox.MPSCQueue

open Transition

variable {Producer Value : Type}

/-! ### What a step reads, writes and deletes -/

/-- The buffers whose fields a producer's next access reads or writes. -/
def ProducerPc.buffers : ProducerPc Value → List Address
  | .compare _ _ tempTail => [tempTail]
  | .loadNext _ _ tempTail => [tempTail]
  | .exchangeNext _ _ tempTail => [tempTail]
  | .walk _ _ tempTail _ => [tempTail]
  | .loadSlot _ _ _ tempTail _ => [tempTail]
  | .publish _ _ _ tempTail _ => [tempTail]
  | .preallocateNext _ tempTail => [tempTail]
  | _ => []

/-- The buffers whose slots a producer's next access reads or writes. -/
def ProducerPc.arrays : ProducerPc Value → List Address
  | .loadSlot _ _ _ tempTail _ => [tempTail]
  | .publish _ _ _ tempTail _ => [tempTail]
  | _ => []

/-- The buffers whose fields the consumer's next access may read, write or delete. -/
def Memory.buffers (memory : Memory Value) : ConsumerPc Value → List Address
  | .moveNext _ => [memory.headOfQueue]
  | .collect _ next => memory.garbageListHead.toList ++ [memory.headOfQueue, next]
  | .readHandled => [memory.headOfQueue]
  | .compareTail => [memory.headOfQueue]
  | .readSet => [memory.headOfQueue]
  | .readEmpty => [memory.headOfQueue]
  | .scan tempHeadOfQueue _ _ _ => [tempHeadOfQueue, memory.headOfQueue]
  | .scanFlag tempHeadOfQueue _ _ _ => [tempHeadOfQueue]
  | .scanNext tempHeadOfQueue => tempHeadOfQueue :: (memory.next tempHeadOfQueue).toList
  | .foldNext tempHeadOfQueue => [tempHeadOfQueue]
  | .foldPrev _ next _ => [next]
  | .foldLink _ _ prev => prev.toList
  | .foldFree tempHeadOfQueue next => [tempHeadOfQueue, next]
  | .rescan _ _ scanHeadOfQueue _ =>
    memory.headOfQueue :: scanHeadOfQueue :: (memory.next scanHeadOfQueue).toList
  | _ => []

/-- The buffers whose slots the consumer's next access may read, write or free. -/
def Memory.arrays (memory : Memory Value) : ConsumerPc Value → List Address
  | .readHandled => [memory.headOfQueue]
  | .readSet => [memory.headOfQueue]
  | .readEmpty => [memory.headOfQueue]
  | .scan tempHeadOfQueue _ _ _ => [tempHeadOfQueue]
  | .scanFlag tempHeadOfQueue _ _ _ => [tempHeadOfQueue]
  | .foldFree tempHeadOfQueue _ => [tempHeadOfQueue]
  | .rescan tempHeadOfQueue _ scanHeadOfQueue _ => [tempHeadOfQueue, scanHeadOfQueue]
  | _ => []

/-- The buffers whose fields a step may read, write or delete. -/
def State.buffers (state : State Producer Value) : Label Producer Value → List Address
  | .dequeueCall => [state.memory.headOfQueue]
  | .producer producer => (state.producers producer).buffers
  | .consumer => state.memory.buffers state.consumer
  | _ => []

/-- The buffers whose slots a step may read, write or free. -/
def State.arrays (state : State Producer Value) : Label Producer Value → List Address
  | .producer producer => (state.producers producer).arrays
  | .consumer => state.memory.arrays state.consumer
  | _ => []

/-- A step goes to no buffer that has been deleted and to no slots that have been freed. -/
def Intact (state : State Producer Value) (label : Label Producer Value) : Prop :=
  (∀ buffer ∈ state.buffers label, state.memory.deleted buffer = false) ∧
    ∀ buffer ∈ state.arrays label,
      state.memory.deleted buffer = false ∧ state.memory.freed buffer = false

/-- The buffer a producer has loaded to compare its location with or to link another one behind. -/
def ProducerPc.held : ProducerPc Value → Option Address
  | .compare _ _ tempTail => some tempTail
  | .loadNext _ _ tempTail => some tempTail
  | .exchangeNext _ _ tempTail => some tempTail
  | .preallocateNext _ tempTail => some tempTail
  | _ => none

/-- The buffer behind which a producer is about to link another one, because its location lies
beyond the buffer or because it has filled the last slot but one. -/
def Memory.growing (memory : Memory Value) : ProducerPc Value → Option Address
  | .compare _ location tempTail =>
    if numberOfElements (memory.positionInQueue tempTail) ≤ location then some tempTail else none
  | .loadNext _ _ tempTail => some tempTail
  | .exchangeNext _ _ tempTail => some tempTail
  | .preallocateNext _ tempTail => some tempTail
  | _ => none

/-- The buffer that the consumer's next access deletes. -/
def Memory.deletes (memory : Memory Value) : ConsumerPc Value → Option Address
  | .collect _ next =>
    match memory.garbageListHead with
    | some garbage =>
      if memory.positionInQueue garbage < memory.positionInQueue next then some garbage
      else some memory.headOfQueue
    | none => some memory.headOfQueue
  | _ => none

/-- A step deletes no buffer behind which a producer is about to link another one. -/
def SparesGrowing (state : State Producer Value) (label : Label Producer Value) : Prop :=
  label = .consumer → ∀ producer buffer,
    state.memory.growing (state.producers producer) = some buffer →
      state.memory.deletes state.consumer ≠ some buffer

/-! ### Every step -/

variable {memory after : Memory Value} {view grown : View Value} {garbage : List Address}

/-- A producer holds a buffer it held before, the one it has loaded from the tail, or the one in
which it has filled a slot. -/
theorem held_of_stepProducer {pc pcAfter : ProducerPc Value} {buffer : Address}
    (step : stepProducer memory pc = some (after, pcAfter)) (held : pcAfter.held = some buffer) :
    pc.held = some buffer ∨ buffer = memory.tailOfQueue ∨
      ∃ data location prevSize isLastBuffer,
        pc = .publish data location prevSize buffer isLastBuffer := by
  cases pc with
  | idle => simp only [stepProducer, reduceCtorEq] at step
  | returning => simp only [stepProducer, reduceCtorEq] at step
  | loadTail =>
    simp only [stepProducer] at step
    cases step
    exact Or.inr (Or.inl (Option.some_inj.mp held).symm)
  | publish data location prevSize tempTail isLastBuffer =>
    simp only [stepProducer] at step
    split at step
    · cases step
      cases held
      exact Or.inr (Or.inr ⟨data, location, prevSize, isLastBuffer, rfl⟩)
    · cases step
      cases held
  | walk =>
    simp only [stepProducer] at step
    split at step
    · split at step
      · cases step
      · cases step
        cases held
    · cases step
      cases held
  | claim =>
    simp only [stepProducer] at step
    cases step
    cases held
  | exchangeTail =>
    simp only [stepProducer] at step
    cases step
    cases held
  | preallocateTail =>
    simp only [stepProducer] at step
    cases step
    cases held
  | _ =>
    -- the accesses after which the producer still holds what it held, or nothing
    simp only [stepProducer] at step
    split at step <;> cases step <;> cases held <;> exact Or.inl rfl

/-- The buffers that a producer holds and the one that the consumer folds away have not been
deleted. -/
structure Reclaiming (state : State Producer Value) (view : View Value)
    (garbage : List Address) : Prop where
  memory : Reclaimed state.memory view garbage
  producers : ∀ producer buffer, (state.producers producer).held = some buffer →
    state.memory.deleted buffer = false
  consumer : ∀ tempHeadOfQueue next, state.consumer = .foldFree tempHeadOfQueue next →
    tempHeadOfQueue ∉ garbage ∧ state.memory.deleted tempHeadOfQueue = false ∧
      state.memory.freed tempHeadOfQueue = false

section Step

variable {state target : State Producer Value}

theorem Reclaiming.start [Inhabited Value] :
    Reclaiming (.start : State Producer Value) .initial [] where
  memory := .start
  producers _ _ held := nomatch held
  consumer _ _ here := nomatch here

/-- A producer that holds a buffer and is not about to link another one behind it has claimed a
location before the buffer's end. -/
theorem Sound.location_of_held (sound : Sound state view) (room : view.Room)
    {producer : Producer} {buffer : Address}
    (held : (state.producers producer).held = some buffer)
    (notGrowing : state.memory.growing (state.producers producer) ≠ some buffer) :
    ∃ index < view.length, buffer = view.buffer index ∧
      ∃ location < bufferSize * (index + 1), view.slot location = .EMPTY := by
  have holds := sound.producers producer
  cases pc : state.producers producer with
  | compare data location tempTail =>
    rw [pc] at holds held notGrowing
    obtain rfl := Option.some_inj.mp held
    obtain ⟨owned, index, bound, rfl⟩ := holds
    refine ⟨index, bound.trans_lt sound.wellFormed.tail_lt, rfl, location, ?_, owned.1⟩
    rw [Memory.growing, (sound.numberOfElements_eq room bound).1] at notGrowing
    exact Nat.not_le.mp fun beyond => notGrowing (if_pos beyond)
  | loadNext => exact absurd held (pc ▸ notGrowing)
  | exchangeNext => exact absurd held (pc ▸ notGrowing)
  | preallocateNext => exact absurd held (pc ▸ notGrowing)
  | _ =>
    rw [pc] at held
    cases held

section Consumer

variable (reclaiming : Reclaiming state view garbage) (sound : Sound state view)
include reclaiming sound

/-- The deletion of a buffer behind which no producer is about to link another one. -/
theorem Reclaiming.delete (room : view.Room) {remaining : List Address} {gone : Address}
    {pc : ConsumerPc Value} (reclaimed : Reclaimed after grown remaining)
    (deleted : after.deleted = Function.update state.memory.deleted gone true)
    (length : grown.length = view.length) (buffers : grown.buffer = view.buffer)
    (slots : grown.slot = view.slot)
    (spares : ∀ producer, state.memory.growing (state.producers producer) ≠ some gone)
    (notFolding : ∀ tempHeadOfQueue next, pc ≠ .foldFree tempHeadOfQueue next) :
    Reclaiming { state with memory := after, consumer := pc } grown remaining where
  memory := reclaimed
  producers producer buffer held := by
    by_cases same : buffer = gone
    · obtain ⟨index, bound, rfl, location, before, empty⟩ :=
        sound.location_of_held room held (same ▸ spares producer)
      rw [← buffers]
      exact reclaimed.undeleted_of_empty (length ▸ bound) before (slots ▸ empty)
    · change after.deleted buffer = false
      rw [deleted, Function.update_of_ne same]
      exact reclaiming.producers producer buffer held
  consumer tempHeadOfQueue next here := absurd here (notFolding tempHeadOfQueue next)

/-- The consumer deletes the first buffer on the list of garbage, or the head buffer. -/
theorem Reclaiming.collect [DecidableEq Producer] [DecidableEq Value] (room : view.Room)
    {caller : Caller Value} {next : Address} (here : state.consumer = .collect caller next)
    (spares : SparesGrowing state .consumer) (step : perform state .consumer = some target) :
    ∃ remaining, Reclaiming target (view.observe state .consumer) remaining := by
  have holds := sound.consumer
  rw [here] at holds
  obtain ⟨_, full, _, index, behind, whole, rfl⟩ := holds
  have wellFormed := sound.wellFormed
  have represents := sound.represents
  have bound := wellFormed.live_lt index (by simp [whole])
  have spared {gone : Address} (deletes : state.memory.deletes state.consumer = some gone)
      (producer : Producer) : state.memory.growing (state.producers producer) ≠ some gone :=
    fun growing => spares rfl producer gone growing deletes
  -- the head buffer goes where no garbage lies before the next buffer
  have deleteHead (deletes : state.memory.deletes state.consumer = some state.memory.headOfQueue) :
      Reclaiming { state with
        memory := state.memory.deleteHead (view.buffer index)
        consumer := resume (state.memory.deleteHead (view.buffer index)) caller true }
        (view.moveHead (state.memory.indexOf (view.buffer index))) garbage := by
    rw [sound.indexOf_eq bound]
    exact reclaiming.delete sound room
      (Reclaimed.deleteHead represents wellFormed reclaiming.memory full whole) rfl rfl rfl rfl
      (spared deletes) (resume_ne_foldFree _ caller true)
  simp only [perform, here, stepConsumer] at step
  simp only [View.observe, here, View.observeConsumer]
  simp only [here, Memory.deletes] at deleteHead spared
  cases list : state.memory.garbageListHead with
  | none =>
    simp only [list, Option.some.injEq, forall_const] at step deleteHead ⊢
    subst step
    exact ⟨garbage, deleteHead⟩
  | some first =>
    simp only [list] at step deleteHead spared ⊢
    by_cases older : state.memory.positionInQueue first <
        state.memory.positionInQueue (view.buffer index)
    · simp only [if_pos older, Option.some.injEq] at step spared ⊢
      subst step
      have linked := reclaiming.memory.linked
      rw [list] at linked
      cases garbage with
      | nil => exact absurd linked (Option.some_ne_none first)
      | cons other rest =>
        obtain rfl := Option.some_inj.mp linked.1
        refine ⟨rest, reclaiming.delete sound room (reclaiming.memory.deleteGarbage ?_) rfl rfl rfl
          rfl (spared rfl) fun _ _ => by rintro ⟨⟩⟩
        -- the garbage lies before the next buffer, and everything before that is filled
        intro passed passedBound same location before
        rw [same, represents.position passed passedBound, represents.position index bound] at older
        rcases Nat.lt_or_ge location view.front with early | late
        · exact wellFormed.passed location early
        · have full' : view.front = bufferSize * (view.headIndex + 1) := by
            rw [View.front, full, Nat.mul_succ]
          have handled := @View.WellFormed.handled_between _ _ wellFormed [] _ _ _ location whole
            (full' ▸ late) (before.trans_le (Nat.mul_le_mul_left _ (Nat.lt_of_succ_lt_succ older)))
          rw [handled]
          exact SlotState.noConfusion
    · simp only [if_neg older, Option.some.injEq, forall_const] at step deleteHead ⊢
      subst step
      exact ⟨garbage, deleteHead⟩

/-- Every access of the consumer that deletes no buffer behind which a producer is about to link
another one. -/
theorem Reclaiming.step_consumer [DecidableEq Producer] [DecidableEq Value] (room : view.Room)
    (spares : SparesGrowing state .consumer) (step : perform state .consumer = some target) :
    ∃ remaining, Reclaiming target (view.observe state .consumer) remaining := by
  have wellFormed := sound.wellFormed
  have represents := sound.represents
  have holds := sound.consumer
  obtain ⟨after, pcAfter, next, rfl⟩ := perform_consumer step
  have kept := keepsBuffers_observeConsumer view state.memory state.consumer
  rcases stepConsumer_reclaims next with ⟨same, notFolding⟩ | ⟨caller, behind, here⟩ |
    ⟨temp, behind, prev, here⟩ | ⟨temp, behind, here⟩
  · refine ⟨garbage, reclaiming.memory.keep same kept, ?_, ?_⟩
    · intro producer buffer held
      change after.deleted buffer = false
      rw [same.deleted]
      exact reclaiming.producers producer buffer held
    · exact fun temp behind folding => absurd folding (notFolding temp behind)
  · exact reclaiming.collect sound room here spares step
  · rw [here] at holds next
    obtain ⟨_, index, _, _, _, before, first, last, rest, whole, rfl, rfl, rfl⟩ := holds
    simp only [stepConsumer, Option.some.injEq, Prod.mk.injEq] at next
    obtain ⟨rfl, rfl⟩ := next
    have member : index ∈ view.live := by simp [whole]
    have firstMember : first ∈ view.live := by simp [whole]
    refine ⟨garbage, (reclaiming.memory.storeNext firstMember _).keep (.refl _) kept,
      reclaiming.producers, fun temp behind folding => ?_⟩
    cases folding
    exact ⟨reclaiming.memory.notMem_of_live member, reclaiming.memory.live index member,
      reclaiming.memory.unfreed_of_live (wellFormed.live_lt index member) member⟩
  · obtain ⟨outside, undeleted, _⟩ := reclaiming.consumer temp behind here
    rw [here] at holds next kept
    obtain ⟨_, _, index, bound, unlinked, rfl, handled, _⟩ := holds
    simp only [stepConsumer, Option.some.injEq, Prod.mk.injEq] at next
    obtain ⟨rfl, rfl⟩ := next
    refine ⟨view.buffer index :: garbage, ?_, reclaiming.producers, fun _ _ => by rintro ⟨⟩⟩
    rw [View.observe, here]
    exact Reclaimed.discard represents wellFormed reclaiming.memory
      (bound.trans wellFormed.tail_lt) unlinked handled outside undeleted

omit sound in
/-- One producer moves on, and what it then holds has not been deleted. -/
theorem Reclaiming.held_update [DecidableEq Producer] {producer : Producer} {pc : ProducerPc Value}
    (undeleted : ∀ buffer, pc.held = some buffer → state.memory.deleted buffer = false) :
    ∀ other buffer, (Function.update state.producers producer pc other).held = some buffer →
      state.memory.deleted buffer = false := by
  intro other buffer held
  by_cases acting : other = producer
  · subst acting
    rw [Function.update_self] at held
    exact undeleted buffer held
  · rw [Function.update_of_ne acting] at held
    exact reclaiming.producers other buffer held

/-- Every access of a producer. -/
theorem Reclaiming.step_producer [DecidableEq Producer] [DecidableEq Value]
    {producer : Producer} (produces : view.Produces (view.observe state (.producer producer)))
    (step : perform state (.producer producer) = some target) :
    ∃ extended, Reclaiming target (view.observe state (.producer producer)) extended := by
  have wellFormed := sound.wellFormed
  have represents := sound.represents
  have holds := sound.producers producer
  obtain ⟨after, pcAfter, next, rfl⟩ := perform_producer step
  -- the buffer that the producer holds after the access has not been deleted
  have undeleted {buffer : Address} (held : pcAfter.held = some buffer) :
      state.memory.deleted buffer = false := by
    rcases held_of_stepProducer next held with before | rfl | ⟨data, location, size, last, here⟩
    · exact reclaiming.producers producer buffer before
    · rw [represents.tailOfQueue]
      exact reclaiming.memory.live _ wellFormed.tail_mem
    · rw [here] at holds
      obtain ⟨owned, reached, rfl, _⟩ := holds
      refine reclaiming.memory.undeleted_of_empty (reached.trans_lt wellFormed.tail_lt) ?_ owned.1
      simp only [bufferSize]
      omega
  have producers (same : after.deleted = state.memory.deleted) : ∀ other buffer,
      (Function.update state.producers producer pcAfter other).held = some buffer →
        after.deleted buffer = false := by
    rw [same]
    exact reclaiming.held_update fun buffer => undeleted
  rcases stepProducer_links next with ⟨same, unchanged⟩ | ⟨tempTail, unlinked, rfl, grows, observed⟩
  · obtain ⟨length, buffers, live⟩ := unchanged view
    refine ⟨garbage, reclaiming.memory.keep same (produces.keepsBuffers length buffers live),
      producers same.deleted, fun temp behind folding => ?_⟩
    obtain ⟨outside, notDeleted, unfreed⟩ := reclaiming.consumer temp behind folding
    exact ⟨outside, same.deleted ▸ notDeleted, same.freed ▸ unfreed⟩
  · obtain ⟨index, reached, rfl, _⟩ := grows view holds
    have below := reached.trans_lt wellFormed.tail_lt
    rw [View.observe, observed, View.observeLink]
    by_cases last : index + 1 = view.length
    · rw [if_pos (by rw [show view.length - 1 = index by omega])]
      exact ⟨garbage, Reclaimed.append wellFormed reclaiming.memory last,
        producers rfl, reclaiming.consumer⟩
    · rw [if_neg]
      · obtain ⟨extended, reclaimed, only⟩ :=
          Reclaimed.linkNext_foreign represents wellFormed reclaiming.memory unlinked
        refine ⟨extended, reclaimed, producers rfl, fun temp behind folding => ?_⟩
        obtain ⟨outside, kept⟩ := reclaiming.consumer temp behind folding
        refine ⟨fun member => ?_, kept⟩
        have known := sound.consumer
        rw [show state.consumer = .foldFree temp behind from folding] at known
        obtain ⟨_, _, folded, foldedBound, _, rfl, _⟩ := known
        rcases only _ member with member | fresh
        · exact outside member
        · exact represents.newAddress_ne (foldedBound.trans wellFormed.tail_lt) fresh
      · intro same
        have equal := represents.buffer_injective below (by omega) same
        omega

/-- Every step that wraps nothing and deletes no buffer behind which a producer is about to link
another one. -/
theorem Reclaiming.step [DecidableEq Producer] [DecidableEq Value] (room : view.Room)
    {label : Label Producer Value} (wraps : WrapsNothing state label)
    (spares : SparesGrowing state label) (step : perform state label = some target) :
    ∃ remaining, Reclaiming target (view.observe state label) remaining := by
  cases label with
  | producer producer =>
    refine reclaiming.step_producer sound (sound.perform_producer (fun data pc => ?_) room step).2
      step
    exact sound.claims_of_wraps wraps step producer data rfl pc
  | consumer => exact reclaiming.step_consumer sound room spares step
  | enqueueCall producer data =>
    obtain ⟨_, rfl⟩ := perform_enqueueCall step
    refine ⟨garbage, reclaiming.memory, ?_, reclaiming.consumer⟩
    exact reclaiming.held_update fun buffer held => nomatch held
  | enqueueReturn producer data =>
    obtain ⟨_, rfl⟩ := perform_enqueueReturn step
    refine ⟨garbage, reclaiming.memory, ?_, reclaiming.consumer⟩
    exact reclaiming.held_update fun buffer held => nomatch held
  | dequeueCall =>
    obtain ⟨_, rfl⟩ := perform_dequeueCall step
    refine ⟨garbage, reclaiming.memory, reclaiming.producers, fun temp next here => ?_⟩
    exact absurd here (resume_ne_foldFree state.memory .check true temp next)
  | dequeueReturn result =>
    obtain ⟨_, rfl⟩ := perform_dequeueReturn step
    exact ⟨garbage, reclaiming.memory, reclaiming.producers, fun _ _ here => nomatch here⟩

end Consumer

end Step

/-! ### What a step reads, writes and frees is intact -/

section Intact

variable {state target : State Producer Value}

/-- The buffer behind a reachable one is reachable. -/
theorem Sound.next_live (sound : Sound state view) {index : Nat} (member : index ∈ view.live)
    {next : Address} (found : state.memory.next (view.buffer index) = some next) :
    ∃ other ∈ view.live, next = view.buffer other := by
  by_cases last : index + 1 = view.length
  · have ends := sound.represents.last
    rw [show view.length - 1 = index by omega, found] at ends
    exact absurd ends (Option.some_ne_none next)
  · obtain ⟨before, other, after, whole, linked⟩ :=
      sound.represents.next_of_live sound.wellFormed member last
    exact ⟨other, by simp [whole], Option.some_inj.mp (found.symm.trans linked)⟩

variable (reclaiming : Reclaiming state view garbage) (sound : Sound state view)
include reclaiming sound

theorem Reclaiming.intact_producer (producer : Producer) :
    Intact state (.producer producer) := by
  have wellFormed := sound.wellFormed
  have holds := sound.producers producer
  have held := reclaiming.producers producer
  -- the buffer of an empty slot, and every buffer behind it
  have behind {location index : Nat} (reached : location / bufferSize ≤ index)
      (bound : index ≤ view.tailIndex) (empty : view.slot location = .EMPTY) :
      state.memory.deleted (view.buffer index) = false := by
    refine reclaiming.memory.undeleted_of_empty (bound.trans_lt wellFormed.tail_lt) ?_ empty
    simp only [bufferSize] at reached ⊢
    omega
  have located {data : Value} {location prevSize : Nat} {tempTail : Address} {last : Bool}
      (owned : view.Owned data location) (located : view.Located location prevSize tempTail last) :
      state.memory.deleted tempTail = false ∧ state.memory.freed tempTail = false := by
    obtain ⟨reached, rfl, _⟩ := located
    exact ⟨behind le_rfl reached owned.1,
      reclaiming.memory.unfreed_of_empty (reached.trans_lt wellFormed.tail_lt) owned.1⟩
  rw [Intact, State.buffers, State.arrays]
  cases pc : state.producers producer with
  | compare =>
    simp only [pc, ProducerPc.buffers, ProducerPc.arrays, List.forall_mem_singleton] at held ⊢
    exact ⟨held _ rfl, List.forall_mem_nil _⟩
  | loadNext =>
    simp only [pc, ProducerPc.buffers, ProducerPc.arrays, List.forall_mem_singleton] at held ⊢
    exact ⟨held _ rfl, List.forall_mem_nil _⟩
  | exchangeNext =>
    simp only [pc, ProducerPc.buffers, ProducerPc.arrays, List.forall_mem_singleton] at held ⊢
    exact ⟨held _ rfl, List.forall_mem_nil _⟩
  | preallocateNext =>
    simp only [pc, ProducerPc.buffers, ProducerPc.arrays, List.forall_mem_singleton] at held ⊢
    exact ⟨held _ rfl, List.forall_mem_nil _⟩
  | walk data location tempTail isLastBuffer =>
    rw [pc] at holds
    obtain ⟨owned, index, bound, rfl, reached, _⟩ := holds
    simp only [ProducerPc.buffers, ProducerPc.arrays, List.forall_mem_singleton]
    exact ⟨behind reached bound owned.1, List.forall_mem_nil _⟩
  | loadSlot =>
    rw [pc] at holds
    simp only [ProducerPc.buffers, ProducerPc.arrays, List.forall_mem_singleton]
    exact ⟨(located holds.1 holds.2).1, located holds.1 holds.2⟩
  | publish =>
    rw [pc] at holds
    simp only [ProducerPc.buffers, ProducerPc.arrays, List.forall_mem_singleton]
    exact ⟨(located holds.1 holds.2).1, located holds.1 holds.2⟩
  | _ => exact ⟨List.forall_mem_nil _, List.forall_mem_nil _⟩

theorem Reclaiming.intact_consumer : Intact state .consumer := by
  have wellFormed := sound.wellFormed
  have represents := sound.represents
  have holds := sound.consumer
  have live {index : Nat} (member : index ∈ view.live) :
      state.memory.deleted (view.buffer index) = false := reclaiming.memory.live index member
  have slots {index : Nat} (member : index ∈ view.live) :
      state.memory.deleted (view.buffer index) = false ∧
        state.memory.freed (view.buffer index) = false :=
    ⟨live member, reclaiming.memory.unfreed_of_live (wellFormed.live_lt index member) member⟩
  have head := slots wellFormed.head_mem
  rw [← represents.headOfQueue] at head
  have next {index : Nat} (member : index ∈ view.live) :
      ∀ next ∈ (state.memory.next (view.buffer index)).toList,
        state.memory.deleted next = false := by
    intro next found
    obtain ⟨other, otherMember, rfl⟩ := sound.next_live member (Option.mem_toList.mp found)
    exact live otherMember
  rw [Intact, State.buffers, State.arrays]
  cases pc : state.consumer with
  | moveNext =>
    simp only [Memory.buffers, Memory.arrays, List.forall_mem_singleton]
    exact ⟨head.1, List.forall_mem_nil _⟩
  | collect caller behind =>
    rw [pc] at holds
    obtain ⟨_, _, _, index, rest, whole, rfl⟩ := holds
    refine ⟨fun buffer member => ?_, List.forall_mem_nil _⟩
    rcases List.mem_append.mp member with member | member
    · have linked := reclaiming.memory.linked
      rw [Option.mem_toList.mp member] at linked
      cases garbage with
      | nil => exact absurd linked (Option.some_ne_none buffer)
      | cons first others =>
        obtain rfl := Option.some_inj.mp linked.1
        exact (reclaiming.memory.waiting buffer List.mem_cons_self).2.1
    · rcases List.mem_pair.mp member with rfl | rfl
      · exact head.1
      · exact live (by simp [whole])
  | readHandled =>
    simp only [Memory.buffers, Memory.arrays, List.forall_mem_singleton]
    exact ⟨head.1, head⟩
  | compareTail =>
    simp only [Memory.buffers, Memory.arrays, List.forall_mem_singleton]
    exact ⟨head.1, List.forall_mem_nil _⟩
  | readSet =>
    simp only [Memory.buffers, Memory.arrays, List.forall_mem_singleton]
    exact ⟨head.1, head⟩
  | readEmpty =>
    simp only [Memory.buffers, Memory.arrays, List.forall_mem_singleton]
    exact ⟨head.1, head⟩
  | scan =>
    rw [pc] at holds
    obtain ⟨_, _, index, scanning⟩ := holds
    simp only [Memory.buffers, Memory.arrays, List.forall_mem_cons, scanning.address]
    exact ⟨⟨live scanning.member, head.1, List.forall_mem_nil _⟩, slots scanning.member,
      List.forall_mem_nil _⟩
  | scanFlag =>
    rw [pc] at holds
    obtain ⟨_, _, index, scanning⟩ := holds
    simp only [Memory.buffers, Memory.arrays, List.forall_mem_singleton, scanning.address]
    exact ⟨live scanning.member, slots scanning.member⟩
  | scanNext =>
    rw [pc] at holds
    obtain ⟨_, _, index, member, rfl⟩ := holds
    exact ⟨List.forall_mem_cons.mpr ⟨live member, next member⟩, List.forall_mem_nil _⟩
  | foldNext =>
    rw [pc] at holds
    obtain ⟨_, _, index, _, member, rfl, _⟩ := holds
    simp only [Memory.buffers, Memory.arrays, List.forall_mem_singleton]
    exact ⟨live member, List.forall_mem_nil _⟩
  | foldPrev =>
    rw [pc] at holds
    obtain ⟨_, _, index, _, _, before, first, last, rest, whole, rfl, rfl, rfl⟩ := holds
    simp only [Memory.buffers, Memory.arrays, List.forall_mem_singleton]
    exact ⟨live (by simp [whole]), List.forall_mem_nil _⟩
  | foldLink =>
    rw [pc] at holds
    obtain ⟨_, index, _, _, _, before, first, last, rest, whole, rfl, rfl, rfl⟩ := holds
    refine ⟨fun buffer member => ?_, List.forall_mem_nil _⟩
    obtain rfl := Option.some_inj.mp (Option.mem_toList.mp member)
    exact live (by simp [whole])
  | foldFree temp behind =>
    obtain ⟨_, folded⟩ := reclaiming.consumer temp behind pc
    rw [pc] at holds
    obtain ⟨_, _, index, _, _, rfl, _, last, member, _, rfl⟩ := holds
    simp only [Memory.buffers, Memory.arrays, List.forall_mem_cons]
    exact ⟨⟨folded.1, live member, List.forall_mem_nil _⟩, folded, List.forall_mem_nil _⟩
  | rescan =>
    rw [pc] at holds
    obtain ⟨_, _, target, index, rescanning⟩ := holds
    simp only [Memory.buffers, Memory.arrays, List.forall_mem_cons, rescanning.address,
      rescanning.scanAddress]
    exact ⟨⟨head.1, live rescanning.scanMember, next rescanning.scanMember⟩,
      slots rescanning.member, slots rescanning.scanMember, List.forall_mem_nil _⟩
  | _ => exact ⟨List.forall_mem_nil _, List.forall_mem_nil _⟩

/-- What a step reads, writes, deletes or frees has been neither deleted nor freed. -/
theorem Reclaiming.intact (label : Label Producer Value) : Intact state label := by
  cases label with
  | producer producer => exact reclaiming.intact_producer sound producer
  | consumer => exact reclaiming.intact_consumer sound
  | dequeueCall =>
    refine ⟨?_, List.forall_mem_nil _⟩
    rw [State.buffers, List.forall_mem_singleton, sound.represents.headOfQueue]
    exact reclaiming.memory.live _ sound.wellFormed.head_mem
  | _ => exact ⟨List.forall_mem_nil _, List.forall_mem_nil _⟩

end Intact

/-! ### Every run -/

section Runs

variable [DecidableEq Producer] [DecidableEq Value] {state target : State Producer Value}

/-- A producer that is about to link a buffer goes to the buffer behind which it links it. -/
theorem buffers_of_growing {producer : Producer} {buffer : Address}
    (growing : state.memory.growing (state.producers producer) = some buffer) :
    (∃ target, perform state (.producer producer) = some target) ∧
      buffer ∈ state.buffers (.producer producer) := by
  have step (present : (stepProducer state.memory (state.producers producer)).isSome = true) :
      ∃ target, perform state (.producer producer) = some target := by
    obtain ⟨⟨after, pc⟩, found⟩ := Option.isSome_iff_exists.mp present
    exact ⟨_, by rw [perform, found]⟩
  rw [State.buffers]
  cases pc : state.producers producer with
  | compare =>
    simp only [pc, Memory.growing] at growing
    split at growing
    · obtain rfl := Option.some_inj.mp growing
      refine ⟨step ?_, List.mem_singleton_self _⟩
      rw [pc, stepProducer]
      split <;> rfl
    · cases growing
  | loadNext =>
    rw [pc] at growing
    obtain rfl := Option.some_inj.mp growing
    refine ⟨step ?_, List.mem_singleton_self _⟩
    rw [pc, stepProducer]
    split <;> rfl
  | exchangeNext =>
    rw [pc] at growing
    obtain rfl := Option.some_inj.mp growing
    refine ⟨step ?_, List.mem_singleton_self _⟩
    rw [pc, stepProducer]
    split <;> rfl
  | preallocateNext =>
    rw [pc] at growing
    obtain rfl := Option.some_inj.mp growing
    refine ⟨step ?_, List.mem_singleton_self _⟩
    rw [pc, stepProducer]
    split <;> rfl
  | _ =>
    rw [pc] at growing
    cases growing

/-- What the step that deletes a buffer leads to. -/
theorem perform_deletes {buffer : Address} (step : perform state .consumer = some target)
    (deletes : state.memory.deletes state.consumer = some buffer) :
    target.memory.deleted buffer = true ∧
      target.memory.positionInQueue = state.memory.positionInQueue ∧
      target.producers = state.producers := by
  cases pc : state.consumer with
  | collect caller next =>
    simp only [pc, Memory.deletes] at deletes
    simp only [perform, pc, stepConsumer] at step
    cases list : state.memory.garbageListHead with
    | none =>
      simp only [list, Option.some.injEq] at step deletes
      subst step deletes
      exact ⟨Function.update_self .., rfl, rfl⟩
    | some first =>
      simp only [list] at step deletes
      split at deletes
      next older =>
        simp only [if_pos older, Option.some.injEq] at step deletes
        subst step deletes
        exact ⟨Function.update_self .., rfl, rfl⟩
      next notOlder =>
        simp only [if_neg notOlder, Option.some.injEq] at step deletes
        subst step deletes
        exact ⟨Function.update_self .., rfl, rfl⟩
  | _ =>
    rw [pc] at deletes
    cases deletes

variable [Inhabited Value] {labels : List (Label Producer Value)}

/-- The labels of a run say which state it reaches. -/
theorem run_unique {first second : State Producer Value} (left : Run system labels first)
    (right : Run system labels second) : first = second := by
  refine left.unique right (fun _ _ one other => one.trans other.symm) ?_
  exact fun _ _ _ _ one other => Option.some_inj.mp (one.symm.trans other)

/-- A run in which no counter wraps, and in which no step deletes a buffer behind which a producer
is about to link another one. -/
theorem reclaiming_run (run : Run (system.restrict WrapsNothing) labels state)
    (spares : ∀ front label source, front ++ [label] <+: labels → Run system front source →
      SparesGrowing source label) :
    ∃ view garbage, Sound state view ∧ view.Room ∧ Reclaiming state view garbage := by
  refine @Run.invariant_of_admissible _ _ (system.restrict WrapsNothing)
    (fun labels => ∀ front label source, front ++ [label] <+: labels → Run system front source →
      SparesGrowing source label)
    (fun _ state => ∃ view garbage, Sound state view ∧ view.Room ∧ Reclaiming state view garbage)
    labels state ?_ ?_ ?_ run spares
  · exact fun labels label spares front other source before =>
      spares front other source (before.trans (List.prefix_append _ _))
  · rintro state rfl
    exact ⟨.initial, [], .start, (by decide : bufferSize * 1 < 2 ^ 32), .start⟩
  · rintro labels source label target before spares ⟨view, garbage, sound, room, reclaiming⟩
      ⟨wraps, step⟩
    have spared := spares labels label source List.prefix_rfl before.of_restrict
    obtain ⟨soundAfter, _, roomAfter⟩ := sound.step_of_wraps room wraps step
    obtain ⟨remaining, after⟩ := reclaiming.step sound room wraps spared step
    exact ⟨_, remaining, soundAfter, roomAfter, after⟩

/-- In a run in which no counter wraps, every step that can be taken goes only to buffers that have
not been deleted and to slots that have not been freed, in every state on the way, if and only if
no step of the run deletes a buffer behind which a producer is about to link another one. -/
theorem intact_iff_spares_growing (run : Run (system.restrict WrapsNothing) labels state) :
    (∀ front source label target, front <+: labels → Run system front source →
      perform source label = some target → Intact source label) ↔
    ∀ front label source, front ++ [label] <+: labels → Run system front source →
      SparesGrowing source label := by
  constructor
  · rintro intact front label source ⟨back, whole⟩ before rfl producer buffer growing deletes
    rw [← whole] at run
    obtain ⟨target, prior, _⟩ := run.split
    obtain ⟨same, reached, _, step⟩ := prior.last
    obtain rfl := run_unique before reached.of_restrict
    obtain ⟨gone, positions, unmoved⟩ := perform_deletes step deletes
    have still : target.memory.growing (target.producers producer) = some buffer := by
      rw [unmoved, ← growing]
      cases source.producers producer <;> simp only [Memory.growing, positions]
    obtain ⟨⟨onward, next⟩, goes⟩ := buffers_of_growing still
    have kept := (intact (front ++ [Label.consumer]) target (.producer producer) onward
      ⟨back, whole⟩ prior.of_restrict next).1 buffer goes
    exact Bool.false_ne_true (kept.symm.trans gone)
  · rintro spares front source label target ⟨back, rfl⟩ before _
    obtain ⟨other, prior, _⟩ := run.split
    obtain rfl := run_unique before prior.of_restrict
    obtain ⟨view, garbage, sound, _, reclaiming⟩ := reclaiming_run prior
      fun front' other source within => spares front' other source
        (within.trans (List.prefix_append _ _))
    exact reclaiming.intact sound label

end Runs

/-! ### A producer that is overtaken -/

section Consumes

/-- Accesses of the consumer alone. -/
def consumes : Nat → Memory Value × ConsumerPc Value → Option (Memory Value × ConsumerPc Value)
  | 0, pair => some pair
  | count + 1, pair => (stepConsumer pair.1 pair.2).bind (consumes count)

theorem consumes_succ {memory next : Memory Value} {pc nextPc : ConsumerPc Value} (count : Nat)
    (step : stepConsumer memory pc = some (next, nextPc)) :
    consumes (count + 1) (memory, pc) = consumes count (next, nextPc) := by
  rw [consumes, step, Option.bind_some]

variable [DecidableEq Producer] [DecidableEq Value] [Inhabited Value]
  {state : State Producer Value} {memory : Memory Value} {pc : ConsumerPc Value}

theorem steps_of_consumes {count : Nat}
    (taken : consumes count (state.memory, state.consumer) = some (memory, pc)) :
    Steps system state (List.replicate count .consumer)
      { state with memory := memory, consumer := pc } := by
  induction count generalizing state with
  | zero =>
    obtain ⟨rfl, rfl⟩ := Prod.mk.inj (Option.some_inj.mp taken)
    exact .nil state
  | succ count inductionHypothesis =>
    obtain ⟨⟨next, nextPc⟩, step, rest⟩ := Option.bind_eq_some_iff.mp taken
    have performed : perform state .consumer =
        some { state with memory := next, consumer := nextPc } := by
      simp only [perform, step]
    exact .cons performed
      (@inductionHypothesis { state with memory := next, consumer := nextPc } rest)

/-- The consumer calls dequeue and takes some accesses. -/
theorem steps_of_dequeue {count : Nat} (idle : state.consumer = .idle)
    (taken : consumes count (state.memory, resume state.memory .check true) = some (memory, pc)) :
    Steps system state (.dequeueCall :: List.replicate count .consumer)
      { state with memory := memory, consumer := pc } := by
  have call : perform state .dequeueCall =
      some { state with consumer := resume state.memory .check true } := by
    rw [perform, idle]
  exact .cons call (@steps_of_consumes _ _ _ _ _
    { state with consumer := resume state.memory .check true } memory pc count taken)

end Consumes

namespace Sample

/-- The consumer takes one value. -/
def dequeueOnce : List (Label Bool Nat) :=
  (.dequeueCall :: List.replicate 3 Label.consumer) ++ [Label.dequeueReturn (some 7)]

/-- One producer fills the first buffer up to its last slot but two; another one fills the last slot
but one, and stops before it links the next buffer; the first one fills the last slot, and in its
next call links the next buffer; the consumer takes everything and deletes the first buffer. -/
def overtaken : List (Label Bool Nat) :=
  (List.replicate 1618 (enqueueOnce false)).flatten ++
    (.enqueueCall true 7 :: List.replicate 6 (Label.producer true)) ++ enqueueOnce false ++
    (.enqueueCall false 7 :: List.replicate 6 (Label.producer false)) ++
    (List.replicate 1619 dequeueOnce).flatten ++ (.dequeueCall :: List.replicate 6 Label.consumer)

/-- The first buffer is full, the tail has moved on, and some of its slots have been taken. -/
structure Draining (count : Nat) (memory : Memory Nat) : Prop where
  headOfQueue : memory.headOfQueue = 0
  tailOfQueue : memory.tailOfQueue = 1
  garbageListHead : memory.garbageListHead = none
  next : memory.next 0 = some 1
  head : memory.head 0 = count
  slot : ∀ index < 1620, memory.isSet 0 index = .SET ∧ memory.data 0 index = 7

section Draining

variable {memory : Memory Nat} {count : Nat} (draining : Draining count memory)
  (inside : count < 1620)
include draining

theorem Draining.advanceHead : Draining (count + 1) memory.advanceHead :=
  { draining with
    head := by
      change Function.update memory.head memory.headOfQueue _ 0 = count + 1
      rw [draining.headOfQueue, Function.update_self, draining.head] }

include inside

/-- The consumer finds the next slot filled and takes its value. -/
theorem Draining.takes (more : Nat) :
    consumes (more + 3) (memory, resume memory .check true) =
      consumes more (memory.advanceHead, moveToNextBuffer memory.advanceHead (.taken 7)) := by
  obtain ⟨set, data⟩ := draining.slot count inside
  have notEnd : ¬bufferSize ≤ memory.head memory.headOfQueue := by
    rw [draining.headOfQueue, draining.head]
    exact Nat.not_le.mpr inside
  have call : resume memory .check true = .readHandled := by rw [resume, if_neg notEnd]
  have readHandled : stepConsumer memory .readHandled = some (memory, .compareBuffer) := by
    rw [stepConsumer, draining.headOfQueue, draining.head, set]
    rfl
  have compareBuffer : stepConsumer memory .compareBuffer = some (memory, .readSet) := by
    rw [stepConsumer, draining.headOfQueue, draining.tailOfQueue]
    rfl
  have readSet : stepConsumer memory .readSet = some (memory.advanceHead,
      moveToNextBuffer memory.advanceHead (.taken 7)) := by
    rw [stepConsumer, draining.headOfQueue, draining.head, set, data]
    rfl
  rw [call, consumes_succ _ readHandled, consumes_succ _ compareBuffer, consumes_succ _ readSet]

end Draining

/-- The consumer takes the values of the first buffer one after the other. -/
theorem draining_run {state : State Bool Nat} (draining : Draining 0 state.memory)
    (idle : state.consumer = .idle) (count : Nat) (before : count ≤ 1619) : ∃ target,
    Steps system state (List.replicate count dequeueOnce).flatten target ∧
      Draining count target.memory ∧ target.consumer = .idle ∧
      target.producers = state.producers := by
  induction count with
  | zero => exact ⟨state, .nil state, draining, idle, rfl⟩
  | succ count inductionHypothesis =>
    obtain ⟨middle, steps, drained, asleep, producers⟩ :=
      inductionHypothesis (Nat.le_of_succ_le before)
    have taken := drained.takes (by omega) 0
    have notEnd : ¬bufferSize ≤ middle.memory.advanceHead.head
        middle.memory.advanceHead.headOfQueue := by
      rw [drained.advanceHead.headOfQueue, drained.advanceHead.head]
      exact Nat.not_le.mpr (Nat.lt_succ_of_le before)
    rw [moveToNextBuffer, if_neg notEnd, consumes] at taken
    have call := steps_of_dequeue asleep taken
    have returns : perform { middle with
        memory := middle.memory.advanceHead
        consumer := resume middle.memory.advanceHead (.taken 7) true } (.dequeueReturn (some 7)) =
          some { middle with memory := middle.memory.advanceHead, consumer := .idle } := rfl
    refine ⟨{ middle with memory := middle.memory.advanceHead, consumer := .idle }, ?_,
      drained.advanceHead, rfl, producers⟩
    rw [List.replicate_succ', List.flatten_append, List.flatten_singleton]
    exact steps.append (call.append (.single returns))

/-- The last value of the first buffer is taken, and the buffer is deleted. -/
theorem Draining.deletes {memory : Memory Nat} (draining : Draining 1619 memory) :
    consumes 6 (memory, resume memory .check true) =
      some (memory.advanceHead.deleteHead 1, .returning (some 7)) := by
  have after := draining.advanceHead
  have atEnd : bufferSize ≤ memory.advanceHead.head memory.advanceHead.headOfQueue := by
    rw [after.headOfQueue, after.head]
    decide
  have moveTail : stepConsumer memory.advanceHead (.moveTail (.taken 7)) =
      some (memory.advanceHead, .moveNext (.taken 7)) := by
    rw [stepConsumer, after.headOfQueue, after.tailOfQueue]
    rfl
  have moveNext : stepConsumer memory.advanceHead (.moveNext (.taken 7)) =
      some (memory.advanceHead, .collect (.taken 7) 1) := by
    rw [stepConsumer, after.headOfQueue, after.next]
  have collect : stepConsumer memory.advanceHead (.collect (.taken 7) 1) =
      some (memory.advanceHead.deleteHead 1, .returning (some 7)) := by
    rw [stepConsumer, after.garbageListHead]
    rfl
  rw [draining.takes (by decide) 3, moveToNextBuffer, if_pos atEnd, consumes_succ _ moveTail,
    consumes_succ _ moveNext, consumes_succ _ collect, consumes]

/-- The memory after the next buffer has been linked behind the first one. -/
def handedOver (memory : Memory Nat) : Memory Nat :=
  ({ memory with tail := 1621 }.linkNext 0).exchangeTail 0 1

section HandedOver

variable {memory : Memory Nat} (begun : Begun 1620 memory) (untouched : Untouched 1620 memory)
include begun untouched

/-- A call of enqueue that finds the first buffer full links the next one and moves the tail. -/
theorem Begun.overtakes :
    accesses 6 (memory, .claim 7) = some (handedOver memory, .loadTail 7 1620) := by
  have small : wrap (1620 + 1) = 1621 := by decide
  have claim : stepProducer memory (.claim 7) =
      some ({ memory with tail := 1621 }, .loadTail 7 1620) := by
    rw [stepProducer, begun.tail, small]
  rw [handedOver]
  generalize claimed : { memory with tail := 1621 } = next at claim
  have tailOfQueue : next.tailOfQueue = 0 := claimed ▸ begun.tailOfQueue
  have position : next.positionInQueue 0 = 1 := claimed ▸ begun.position
  have unlinked : next.next 0 = none := claimed ▸ untouched.next
  have allocated : next.allocated = 1 := claimed ▸ untouched.allocated
  have full : numberOfElements 1 ≤ 1620 := by decide
  have loadTail : stepProducer next (.loadTail 7 1620) = some (next, .compare 7 1620 0) := by
    rw [stepProducer, tailOfQueue]
  have compare : stepProducer next (.compare 7 1620 0) = some (next, .loadNext 7 1620 0) := by
    rw [stepProducer, position, if_pos full]
  have loadNext : stepProducer next (.loadNext 7 1620 0) = some (next, .exchangeNext 7 1620 0) := by
    rw [stepProducer, unlinked]
  have exchangeNext : stepProducer next (.exchangeNext 7 1620 0) =
      some (next.linkNext 0, .exchangeTail 7 1620 0 1) := by
    rw [stepProducer, unlinked, allocated]
  have exchangeTail : stepProducer (next.linkNext 0) (.exchangeTail 7 1620 0 1) =
      some ((next.linkNext 0).exchangeTail 0 1, .loadTail 7 1620) := rfl
  rw [accesses_succ _ claim, accesses_succ _ loadTail, accesses_succ _ compare,
    accesses_succ _ loadNext, accesses_succ _ exchangeNext, accesses_succ _ exchangeTail, accesses]

theorem Begun.drains : Draining 0 (handedOver memory) := by
  have apart : (0 : Address) ≠ memory.allocated := by
    rw [untouched.allocated]
    decide
  have tailOfQueue : ({ memory with tail := 1621 }.linkNext 0).tailOfQueue = 0 := begun.tailOfQueue
  rw [handedOver, Memory.exchangeTail, if_pos tailOfQueue]
  exact {
    headOfQueue := untouched.headOfQueue
    tailOfQueue := rfl
    garbageListHead := untouched.garbageListHead
    next := (linkNext_next _ 0).trans (congrArg some untouched.allocated)
    head := (Function.update_of_ne apart ..).trans untouched.head
    slot := fun index inside =>
      ⟨(congrFun (Function.update_of_ne apart ..) index).trans (untouched.slot index inside).1,
        (untouched.slot index inside).2⟩ }

end HandedOver

end Sample

/-- A producer that has filled the last slot but one of a buffer goes to the buffer after the
consumer has deleted it. -/
theorem overtaken_producer_reads_deleted : ∃ state target, Run system Sample.overtaken state ∧
    perform state (.producer true) = some target ∧ ¬Intact state (.producer true) := by
  obtain ⟨first, run, memory, asleep, idle⟩ := Sample.begun_run 1618 le_rfl
  have begun : Sample.Begun 1618 first.memory := memory ▸ Sample.begun_filling 1618
  have untouched : Sample.Untouched 1618 first.memory := memory ▸ Sample.untouched_filling 1618
  -- the other producer fills the last slot but one, and stops
  obtain ⟨second, stops, memory, here, asleepStill, others⟩ :=
    steps_of_call (idle true) (begun.triggers rfl 0)
  have begun : Sample.Begun 1619 second.memory := memory ▸ begun.filled
  have untouched : Sample.Untouched 1619 second.memory := memory ▸ untouched.filled
  -- the first one fills the last slot, and links the next buffer
  have waiting : second.producers false = .idle :=
    (others false Bool.noConfusion).trans (idle false)
  obtain ⟨third, returns, memory, stillAsleep, stay⟩ :=
    steps_of_return waiting (begun.enqueues (by decide) (by decide))
  have begun : Sample.Begun 1620 third.memory := memory ▸ begun.filled
  have untouched : Sample.Untouched 1620 third.memory := memory ▸ untouched.filled
  obtain ⟨fourth, overtakes, memory, _, finallyAsleep, others⟩ :=
    steps_of_call ((stay false).trans waiting) (begun.overtakes untouched)
  have draining : Sample.Draining 0 fourth.memory := memory ▸ begun.drains untouched
  -- the consumer takes every value and deletes the buffer
  have sleeps : fourth.consumer = .idle :=
    ((finallyAsleep.trans stillAsleep).trans asleepStill).trans asleep
  obtain ⟨fifth, drains, drained, sleeps, producers⟩ :=
    Sample.draining_run draining sleeps 1619 le_rfl
  have deletes := steps_of_dequeue sleeps drained.deletes
  have stopped : fifth.producers true = .preallocateNext 7 0 := by
    rw [producers, others true Bool.noConfusion, stay true, here]
  have linked : (fifth.memory.advanceHead.deleteHead 1).next 0 = some 1 := drained.next
  have gone : (fifth.memory.advanceHead.deleteHead 1).deleted 0 = true := by
    change Function.update fifth.memory.deleted fifth.memory.headOfQueue true 0 = true
    rw [drained.headOfQueue, Function.update_self]
  have onward : stepProducer (fifth.memory.advanceHead.deleteHead 1) (fifth.producers true) =
      some (fifth.memory.advanceHead.deleteHead 1, .returning 7) := by
    rw [stopped, stepProducer, linked]
  refine ⟨_, _, ((((run.append stops).append returns).append overtakes).append drains).append
    deletes, by rw [perform, onward], fun intact => ?_⟩
  have goes : (0 : Address) ∈ (fifth.producers true).buffers := by
    rw [stopped]
    exact List.mem_singleton_self 0
  exact Bool.false_ne_true ((intact.1 0 goes).symm.trans gone)

/-! ### A buffer that is deleted in time -/

/-- The consumer's own steps leave the producers where they are. -/
theorem producers_of_consumer [DecidableEq Producer] [DecidableEq Value] [Inhabited Value]
    {first last : State Producer Value} {labels : List (Label Producer Value)}
    (steps : Steps system first labels last)
    (own : ∀ label ∈ labels, label = .dequeueCall ∨ label = .consumer ∨
      ∃ result, label = .dequeueReturn result) : last.producers = first.producers := by
  induction steps with
  | nil => rfl
  | @cons first second last label labels step _ inductionHypothesis =>
    rw [inductionHypothesis fun other member => own other (List.mem_cons_of_mem _ member)]
    rcases own label List.mem_cons_self with rfl | rfl | ⟨result, rfl⟩
    · obtain ⟨_, rfl⟩ := perform_dequeueCall step
      rfl
    · obtain ⟨_, _, _, rfl⟩ := perform_consumer step
      rfl
    · obtain ⟨_, rfl⟩ := perform_dequeueReturn step
      rfl

namespace Sample

/-- One producer fills the last slot but one of the first buffer and links the next buffer; another
one fills the last slot; then the first one moves the tail and returns. -/
def provided : List (Label Bool Nat) :=
  stopped ++ enqueueOnce true ++ [Label.producer false, .enqueueReturn false 7]

/-- The consumer takes everything and deletes the first buffer. -/
def emptied : List (Label Bool Nat) :=
  (List.replicate 1619 dequeueOnce).flatten ++ (.dequeueCall :: List.replicate 6 Label.consumer) ++
    [Label.dequeueReturn (some 7)]

/-- The memory when the first buffer is full and the tail has moved on. -/
def turnedOver (memory : Memory Nat) : Memory Nat :=
  (filled 1619 ((filled 1618 memory).linkNext 0)).exchangeTail 0 1

theorem Begun.turnsOver {memory : Memory Nat} (begun : Begun 1618 memory)
    (untouched : Untouched 1618 memory) : Draining 0 (turnedOver memory) := by
  have apart : (0 : Address) ≠ memory.allocated := by
    rw [untouched.allocated]
    decide
  have linked : ∀ index < 1619, ((Sample.filled 1618 memory).linkNext 0).isSet 0 index = .SET ∧
      ((Sample.filled 1618 memory).linkNext 0).data 0 index = 7 := fun index inside =>
    ⟨(congrFun (Function.update_of_ne apart ..) index).trans
      (slot_filled untouched.slot index inside).1, (slot_filled untouched.slot index inside).2⟩
  have tailOfQueue :
      (Sample.filled 1619 ((Sample.filled 1618 memory).linkNext 0)).tailOfQueue = 0 :=
    begun.tailOfQueue
  rw [turnedOver, Memory.exchangeTail, if_pos tailOfQueue]
  exact {
    headOfQueue := untouched.headOfQueue
    tailOfQueue := rfl
    garbageListHead := untouched.garbageListHead
    next := (linkNext_next (Sample.filled 1618 memory) 0).trans (congrArg some untouched.allocated)
    head := (Function.update_of_ne apart ..).trans untouched.head
    slot := slot_filled linked }

theorem provided_run : ∃ state, Run system provided state ∧ Draining 0 state.memory ∧
    state.consumer = .idle ∧ ∀ producer, state.producers producer = .idle := by
  obtain ⟨first, run, start, asleep, idle⟩ := begun_run 1618 le_rfl
  have begun : Begun 1618 first.memory := start ▸ begun_filling 1618
  have untouched : Untouched 1618 first.memory := start ▸ untouched_filling 1618
  obtain ⟨second, stops, memory, here, consumer, others⟩ :=
    steps_of_call (idle false) (begun.preallocates rfl untouched.next)
  have linked : Begun 1619 second.memory := by
    rw [memory]
    exact begun.filled.linkNext untouched.allocated
  have waiting : second.producers true = .idle := (others true Bool.noConfusion).trans (idle true)
  obtain ⟨third, returns, memoryAfter, consumerAfter, stay⟩ :=
    steps_of_return waiting (linked.enqueues (by decide) (by decide))
  have moves : perform third (.producer false) = some { third with
      memory := third.memory.exchangeTail 0 1
      producers := Function.update third.producers false (.returning 7) } := by
    have stands : third.producers false = .preallocateTail 7 0 1 := by
      rw [stay, here, untouched.allocated]
    rw [perform, stands]
    rfl
  have leaves : perform { third with
      memory := third.memory.exchangeTail 0 1
      producers := Function.update third.producers false (.returning 7) }
        (.enqueueReturn false 7) = some { third with
      memory := third.memory.exchangeTail 0 1
      producers := Function.update (Function.update third.producers false (.returning 7)) false
        .idle } := by
    rw [perform]
    exact if_pos (Function.update_self false (.returning 7) third.producers)
  refine ⟨_, ((run.append stops).append returns).append (.cons moves (.single leaves)), ?_, ?_, ?_⟩
  · have whole : third.memory.exchangeTail 0 1 = turnedOver first.memory := by
      rw [memoryAfter, memory]
      rfl
    exact whole ▸ begun.turnsOver untouched
  · rw [consumerAfter, consumer, asleep]
  · intro producer
    cases producer with
    | false => simp only [Function.update_self]
    | true =>
      have apart : true ≠ false := Bool.noConfusion
      simp only [Function.update_of_ne apart]
      exact (stay true).trans waiting

theorem emptied_own : ∀ label ∈ emptied, label = .dequeueCall ∨ label = .consumer ∨
    ∃ result, label = .dequeueReturn result := by
  intro label member
  rcases List.mem_append.mp member with before | last
  · rcases List.mem_append.mp before with taking | deleting
    · obtain ⟨once, isOnce, inside⟩ := List.mem_flatten.mp taking
      obtain rfl := List.eq_of_mem_replicate isOnce
      rcases List.mem_append.mp inside with called | returned
      · exact (List.mem_cons.mp called).imp_right fun consumes =>
          Or.inl (List.eq_of_mem_replicate consumes)
      · exact Or.inr (Or.inr ⟨some 7, List.mem_singleton.mp returned⟩)
    · exact (List.mem_cons.mp deleting).imp_right fun consumes =>
        Or.inl (List.eq_of_mem_replicate consumes)
  · exact Or.inr (Or.inr ⟨some 7, List.mem_singleton.mp last⟩)

theorem reclaimed_run : ∃ source target, Run system provided source ∧
    Steps system source emptied target ∧ (∀ producer, source.producers producer = .idle) ∧
    target.consumer = .idle ∧ target.memory.deleted 0 = true := by
  obtain ⟨source, run, draining, asleep, idle⟩ := provided_run
  obtain ⟨middle, drains, drained, sleeps, _⟩ := draining_run draining asleep 1619 le_rfl
  have deletes := steps_of_dequeue sleeps drained.deletes
  refine ⟨source, _, run, (drains.append deletes).append (.single rfl), idle, rfl, ?_⟩
  change Function.update middle.memory.deleted middle.memory.headOfQueue true 0 = true
  rw [drained.headOfQueue, Function.update_self]

/-- No producer is about to link a buffer when the consumer takes a step. -/
theorem reclaimed_spares {front : List (Label Bool Nat)} {label : Label Bool Nat}
    {state : State Bool Nat} (within : front ++ [label] <+: provided ++ emptied)
    (before : Run system front state) : SparesGrowing state label := by
  rintro rfl producer buffer growing
  obtain ⟨source, _, run, _, idle, _⟩ := reclaimed_run
  obtain ⟨rest, isFront, inside⟩ : ∃ rest, front = provided ++ rest ∧ rest <+: emptied := by
    obtain ⟨back, same⟩ := within
    rw [List.append_assoc] at same
    rcases List.append_eq_append_iff.mp same with ⟨gap, isProvided, split⟩ | ⟨rest, isFront, split⟩
    · cases gap with
      | nil => exact ⟨[], by simpa using isProvided.symm, List.nil_prefix⟩
      | cons label gap =>
        obtain rfl : Label.consumer = label := (List.cons.inj split).1
        have member : Label.consumer ∈ provided := isProvided ▸ by simp
        exact absurd member (by decide +kernel)
    · exact ⟨rest, isFront, _, split.symm⟩
  have stays : state.producers = source.producers := by
    rw [isFront] at before
    obtain ⟨middle, prior, taken⟩ := before.split
    obtain rfl := run_unique prior run
    exact producers_of_consumer taken fun other member => emptied_own other (inside.subset member)
  rw [stays, idle producer] at growing
  cases growing

end Sample

/-- The first buffer is deleted in time, so every step of the run stays inside the queue. -/
theorem intact_iff_spares_growing_sample : ∃ state,
    Run system (Sample.provided ++ Sample.emptied) state ∧ state.memory.deleted 0 = true ∧
    ∀ front source label target, front <+: Sample.provided ++ Sample.emptied →
      Run system front source → perform source label = some target → Intact source label := by
  obtain ⟨source, target, run, steps, _, _, deleted⟩ := Sample.reclaimed_run
  have whole := run.append steps
  exact ⟨target, whole, deleted,
    (intact_iff_spares_growing (wrapsNothing_of_few whole (by decide +kernel))).mpr
      fun _ _ _ within before => Sample.reclaimed_spares within before⟩

end MarketSandbox.MPSCQueue
