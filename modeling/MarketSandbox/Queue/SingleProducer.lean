/-
This file says what the queue is to one producer and one consumer whose calls
overlap, however many values are enqueued. The producer fills the slots from the
front to the back, so the first slot that the consumer finds set holds the next
value; dequeue returns the values in the order of their enqueues and leaves none
out, and a dequeue during which nothing is enqueued returns without a value only
after all of them.
-/

import MarketSandbox.Queue.Placement

namespace MarketSandbox.MPSCQueue

open Transition

variable {Value : Type} {memory next : Memory Value} {transcript before after : Transcript Value}

/-! ### Where the consumer stands -/

/-- A scan for a value stands at the head or behind it. In a later buffer it is at the first slot,
or it has met a slot that has not been handled. -/
structure Scans (memory : Memory Value) (transcript : Transcript Value) (buffer offset : Nat)
    (moved allHandled : Bool) : Prop where
  standing : memory.head memory.headOfQueue < bufferSize
  start : memory.headOfQueue ≤ buffer
  within : buffer < memory.allocated
  inside : offset < bufferSize
  ahead : transcript.front ≤ bufferSize * buffer + offset
  moved : moved = true → memory.headOfQueue < buffer ∧ (offset = 0 ∨ allHandled = false)

/-- A second scan looks for a value before one that has been found. -/
structure Rescans (memory : Memory Value) (transcript : Transcript Value)
    (buffer offset scanBuffer scanOffset : Nat) : Prop where
  standing : memory.head memory.headOfQueue < bufferSize
  inside : offset < bufferSize
  start : memory.headOfQueue ≤ scanBuffer
  scanned : scanOffset ≤ bufferSize
  ahead : transcript.front ≤ bufferSize * scanBuffer + scanOffset
  reached : bufferSize * scanBuffer + scanOffset ≤ bufferSize * buffer + offset
  found : ∃ index data, transcript.taken ≤ index ∧
    transcript.entries[index]? = some (bufferSize * buffer + offset, data)
  clear : ∀ index entry, transcript.taken ≤ index → transcript.entries[index]? = some entry →
    bufferSize * scanBuffer + scanOffset ≤ entry.1

/-- Where the consumer stands. -/
def Taking (memory : Memory Value) (transcript : Transcript Value) : ConsumerPc Value → Prop
  | .idle | .returning _ => True
  | .moveTail _ | .moveNext _ => memory.head memory.headOfQueue = bufferSize
  | .collect _ next => memory.head memory.headOfQueue = bufferSize ∧
      next = memory.headOfQueue + 1 ∧ next < memory.allocated
  | .readHandled | .compareBuffer | .compareTail | .readSet | .readEmpty =>
    memory.head memory.headOfQueue < bufferSize
  | .scan buffer offset moved allHandled | .scanFlag buffer offset moved allHandled =>
    Scans memory transcript buffer offset moved allHandled
  | .scanNext buffer => memory.head memory.headOfQueue < bufferSize ∧
      memory.headOfQueue ≤ buffer ∧ buffer < memory.allocated
  -- no buffer is ever handled before the head moves past it
  | .foldTail _ | .foldNext _ | .foldPrev _ _ _ | .foldLink _ _ _ | .foldFree _ _ => False
  | .rescan buffer offset scanBuffer scanOffset =>
    Rescans memory transcript buffer offset scanBuffer scanOffset

/-- The producer leaves the consumer where it stands. -/
theorem Writes.taking {pc pcAfter : ProducerPc Value} {consumer : ConsumerPc Value}
    (writes : Writes memory next before after pc pcAfter)
    (taking : Taking memory before consumer) : Taking next after consumer := by
  have front : after.front = before.front := by
    rw [Transcript.front, Transcript.front, writes.taken]
  have head := writes.head
  cases consumer with
  | idle | returning => trivial
  | moveTail | moveNext => exact head.trans taking
  | collect caller behind =>
    obtain ⟨done, isNext, within⟩ := taking
    exact ⟨head.trans done, isNext.trans (congrArg (· + 1) writes.headOfQueue.symm),
      within.trans_le writes.allocated⟩
  | readHandled | compareBuffer | compareTail | readSet | readEmpty => exact head.trans_lt taking
  | scan | scanFlag =>
    exact ⟨head.trans_lt taking.standing, writes.headOfQueue.trans_le taking.start,
      taking.within.trans_le writes.allocated, taking.inside, front.trans_le taking.ahead,
      by rw [writes.headOfQueue]; exact taking.moved⟩
  | scanNext =>
    exact ⟨head.trans_lt taking.1, writes.headOfQueue.trans_le taking.2.1,
      taking.2.2.trans_le writes.allocated⟩
  | foldTail | foldNext | foldPrev | foldLink | foldFree => exact taking
  | rescan buffer offset scanBuffer scanOffset =>
    obtain ⟨found, data, waiting, isFound⟩ := taking.found
    have within := (List.getElem?_eq_some_iff.mp isFound).1
    have kept (index : Nat) (old : index < before.entries.length) :
        after.entries[index]? = before.entries[index]? := by
      obtain ⟨more, isAfter⟩ := writes.entries
      rw [← isAfter, List.getElem?_append_left old]
    exact {
      standing := head.trans_lt taking.standing
      inside := taking.inside
      start := writes.headOfQueue.trans_le taking.start
      scanned := taking.scanned
      ahead := front.trans_le taking.ahead
      reached := taking.reached
      found := ⟨found, data, writes.taken.trans_le waiting, (kept found within).trans isFound⟩
      clear := by
        intro index entry isWaiting isEntry
        rcases Nat.lt_or_ge index before.entries.length with old | new
        · exact taking.clear index entry (writes.taken.symm.trans_le isWaiting)
            ((kept index old).symm.trans isEntry)
        · exact taking.reached.trans (writes.sound.lt_of_lt ((kept found within).trans isFound)
            isEntry (within.trans_le new)).le }

/-! ### The accesses of dequeue -/

/-- What an access of the consumer leaves: the memory holds the transcript, of which a value may
have been taken, and the producer's fields have not changed. -/
structure Takes (memory next : Memory Value) (before after : Transcript Value)
    (pc pcAfter : ConsumerPc Value) : Prop where
  sound : after.Sound
  holds : Holds next after
  taking : Taking next after pcAfter
  tail : next.tail = memory.tail
  tailOfQueue : next.tailOfQueue = memory.tailOfQueue
  allocated : next.allocated = memory.allocated
  entries : after.entries = before.entries
  kept : after = before ∨ ∃ data, pcAfter.inTransit = [data]
  values : ∀ given, given ++ pc.inTransit = before.values.take before.taken →
    given ++ pcAfter.inTransit = after.values.take after.taken

/-- The consumer leaves the producer where it stands. -/
theorem Takes.placing {pc pcAfter : ConsumerPc Value} {producer : ProducerPc Value}
    (takes : Takes memory next before after pc pcAfter)
    (placing : Placing memory before.entries producer) : Placing next after.entries producer := by
  have settled {claims : Nat} (settled : Settled memory before.entries claims) :
      Settled next before.entries claims :=
    ⟨takes.tail.trans settled.tail, by rw [takes.tailOfQueue, takes.allocated]; exact settled.last,
      by rw [takes.tailOfQueue]; exact settled.room⟩
  have linked {claims tempTail newBuffer : Nat}
      (linked : Linked memory before.entries claims tempTail newBuffer) :
      Linked next before.entries claims tempTail newBuffer :=
    ⟨takes.tail.trans linked.tail, takes.tailOfQueue.trans linked.tailOfQueue, linked.behind,
      by rw [takes.allocated]; exact linked.last, linked.room⟩
  rw [takes.entries]
  cases producer with
  | idle | claim | returning => exact settled placing
  | loadTail => exact ⟨placing.1, settled placing.2⟩
  | compare =>
    exact ⟨placing.1, settled placing.2.1, placing.2.2.trans takes.tailOfQueue.symm⟩
  | loadNext | exchangeNext =>
    exact ⟨placing.1, settled placing.2.1, placing.2.2.1.trans takes.tailOfQueue.symm,
      placing.2.2.2⟩
  | exchangeTail => exact ⟨placing.1, linked placing.2⟩
  | walk =>
    refine ⟨placing.1, settled placing.2.1, ?_⟩
    rw [takes.tailOfQueue]
    exact placing.2.2
  | loadSlot | publish =>
    refine ⟨placing.1, settled placing.2.1, ?_⟩
    rw [takes.tailOfQueue]
    exact placing.2.2
  | preallocateNext =>
    refine ⟨takes.tail.trans placing.1, placing.2.1.trans takes.tailOfQueue.symm, ?_⟩
    rw [takes.tailOfQueue, takes.allocated]
    exact placing.2.2
  | preallocateTail => exact linked placing

section Access

variable {pcAfter : ConsumerPc Value} {caller : Caller Value}

/-- An access that changes nothing but where the consumer stands. -/
theorem Takes.of_same {pc : ConsumerPc Value} (sound : transcript.Sound)
    (holds : Holds memory transcript) (taking : Taking memory transcript pcAfter)
    (inTransit : pcAfter.inTransit = pc.inTransit) :
    Takes memory memory transcript transcript pc pcAfter :=
  ⟨sound, holds, taking, rfl, rfl, rfl, rfl, .inl rfl, fun _ given => by rwa [inTransit]⟩

theorem taking_resume_false : Taking memory transcript (resume memory caller false) := by
  cases caller <;> trivial

theorem taking_resume (inside : memory.head memory.headOfQueue < bufferSize) :
    Taking memory transcript (resume memory caller true) := by
  cases caller with
  | check =>
    rw [resume, if_neg (Nat.not_le.mpr inside)]
    exact inside
  | handled => exact inside
  | taken => trivial

theorem taking_moveToNextBuffer (holds : Holds memory transcript) :
    Taking memory transcript (moveToNextBuffer memory caller) := by
  rw [moveToNextBuffer]
  split_ifs with full
  · exact Nat.le_antisymm holds.head full
  · exact taking_resume (Nat.lt_of_not_le full)

theorem takes_moveTail (sound : transcript.Sound) (holds : Holds memory transcript)
    (taking : Taking memory transcript (.moveTail caller))
    (step : stepConsumer memory (.moveTail caller) = some (next, pcAfter)) :
    Takes memory next transcript transcript (.moveTail caller) pcAfter := by
  rw [stepConsumer] at step
  split_ifs at step with last
  · obtain ⟨rfl, rfl⟩ := Prod.mk.inj (Option.some.inj step)
    exact .of_same sound holds taking_resume_false (inTransit_resume ..)
  · obtain ⟨rfl, rfl⟩ := Prod.mk.inj (Option.some.inj step)
    exact .of_same sound holds taking rfl

theorem takes_moveNext (sound : transcript.Sound) (holds : Holds memory transcript)
    (taking : Taking memory transcript (.moveNext caller))
    (step : stepConsumer memory (.moveNext caller) = some (next, pcAfter)) :
    Takes memory next transcript transcript (.moveNext caller) pcAfter := by
  rcases (Nat.succ_le_of_lt holds.reached).lt_or_eq with within | last
  · simp only [stepConsumer, holds.next _ within] at step
    obtain ⟨rfl, rfl⟩ := Prod.mk.inj (Option.some.inj step)
    exact .of_same sound holds ⟨taking, rfl, within⟩ rfl
  · simp only [stepConsumer, holds.last _ last] at step
    obtain ⟨rfl, rfl⟩ := Prod.mk.inj (Option.some.inj step)
    exact .of_same sound holds taking_resume_false (inTransit_resume ..)

theorem takes_collect {behind : Address} (sound : transcript.Sound)
    (holds : Holds memory transcript)
    (taking : Taking memory transcript (.collect caller behind))
    (step : stepConsumer memory (.collect caller behind) = some (next, pcAfter)) :
    Takes memory next transcript transcript (.collect caller behind) pcAfter := by
  obtain ⟨done, rfl, within⟩ := taking
  simp only [stepConsumer, holds.garbage] at step
  obtain ⟨rfl, rfl⟩ := Prod.mk.inj (Option.some.inj step)
  have fresh : memory.head (memory.headOfQueue + 1) = 0 :=
    holds.heads _ (Nat.lt_succ_self _) within
  exact {
    sound := sound
    holds := holds.deleteHead done within
    taking := taking_resume (fresh.trans_lt (by decide))
    tail := rfl
    tailOfQueue := rfl
    allocated := rfl
    entries := rfl
    kept := .inl rfl
    values := fun _ given => by
      rw [inTransit_resume]
      exact given }

theorem takes_readHandled (sound : transcript.Sound) (holds : Holds memory transcript)
    (taking : Taking memory transcript .readHandled)
    (step : stepConsumer memory .readHandled = some (next, pcAfter)) :
    Takes memory next transcript transcript .readHandled pcAfter := by
  rw [stepConsumer] at step
  split_ifs at step with handled
  · have behind := holds.behind_of_handled sound holds.reached taking holds.front.ge handled
    exact absurd behind.1 (holds.front ▸ lt_irrefl _)
  · obtain ⟨rfl, rfl⟩ := Prod.mk.inj (Option.some.inj step)
    exact .of_same sound holds taking rfl

/-- A slot that is set, before which nothing is left to be taken, holds the next value. -/
theorem next_of_set (sound : transcript.Sound) (holds : Holds memory transcript)
    {buffer offset : Nat} (within : buffer < memory.allocated) (inside : offset < bufferSize)
    (ahead : transcript.front ≤ bufferSize * buffer + offset)
    (set : memory.isSet buffer offset = .SET)
    (first : ∀ other, transcript.entries[transcript.taken]? = some other →
      bufferSize * buffer + offset ≤ other.1) :
    transcript.entries[transcript.taken]? =
      some (bufferSize * buffer + offset, memory.data buffer offset) := by
  obtain ⟨index, waiting, isEntry⟩ := holds.entry_of_set within inside ahead set
  obtain rfl := sound.eq_taken isEntry waiting first
  exact isEntry

theorem takes_readSet (sound : transcript.Sound) (holds : Holds memory transcript)
    (taking : Taking memory transcript .readSet)
    (step : stepConsumer memory .readSet = some (next, pcAfter)) :
    ∃ after, Takes memory next transcript after .readSet pcAfter := by
  rw [stepConsumer] at step
  split_ifs at step with set
  · obtain ⟨rfl, rfl⟩ := Prod.mk.inj (Option.some.inj step)
    have isNext := next_of_set sound holds holds.reached taking holds.front.ge set
      fun other isEntry => holds.front.trans_le (sound.front_le le_rfl isEntry)
    have advanced := holds.advanceHead sound taking isNext
    refine ⟨transcript.take, sound.take (List.getElem?_eq_some_iff.mp isNext).1, advanced,
      taking_moveToNextBuffer advanced, rfl, rfl, rfl, rfl,
      .inr ⟨_, inTransit_moveToNextBuffer ..⟩, fun given taken => ?_⟩
    rw [inTransit_moveToNextBuffer]
    have whole : given = transcript.values.take transcript.taken :=
      (List.append_nil given).symm.trans taken
    rw [whole]
    exact (Transcript.take_values isNext).symm
  · obtain ⟨rfl, rfl⟩ := Prod.mk.inj (Option.some.inj step)
    exact ⟨_, .of_same sound holds taking rfl⟩

theorem takes_readEmpty (sound : transcript.Sound) (holds : Holds memory transcript)
    (taking : Taking memory transcript .readEmpty)
    (step : stepConsumer memory .readEmpty = some (next, pcAfter)) :
    Takes memory next transcript transcript .readEmpty pcAfter := by
  rw [stepConsumer] at step
  split_ifs at step with empty
  · obtain ⟨rfl, rfl⟩ := Prod.mk.inj (Option.some.inj step)
    exact .of_same sound holds
      ⟨taking, le_rfl, holds.reached, taking, holds.front.ge, by rintro ⟨⟩⟩ rfl
  · obtain ⟨rfl, rfl⟩ := Prod.mk.inj (Option.some.inj step)
    exact .of_same sound holds trivial rfl

theorem takes_scan {buffer offset : Nat} {moved allHandled : Bool} (sound : transcript.Sound)
    (holds : Holds memory transcript)
    (taking : Taking memory transcript (.scan buffer offset moved allHandled))
    (step : stepConsumer memory (.scan buffer offset moved allHandled) = some (next, pcAfter)) :
    Takes memory next transcript transcript (.scan buffer offset moved allHandled) pcAfter := by
  rw [stepConsumer] at step
  split_ifs at step with set
  · obtain ⟨rfl, rfl⟩ := Prod.mk.inj (Option.some.inj step)
    obtain ⟨index, waiting, isEntry⟩ :=
      holds.entry_of_set taking.within taking.inside taking.ahead set
    refine .of_same sound holds ⟨taking.standing, taking.inside, le_rfl, holds.head, holds.front.ge,
      holds.front.trans_le taking.ahead, ⟨index, _, waiting, isEntry⟩, ?_⟩ rfl
    exact fun other entry waits isOther => holds.front.trans_le (sound.front_le waits isOther)
  · obtain ⟨rfl, rfl⟩ := Prod.mk.inj (Option.some.inj step)
    exact .of_same sound holds taking rfl

theorem takes_scanFlag {buffer offset : Nat} {moved allHandled : Bool} (sound : transcript.Sound)
    (holds : Holds memory transcript)
    (taking : Taking memory transcript (.scanFlag buffer offset moved allHandled))
    (step : stepConsumer memory (.scanFlag buffer offset moved allHandled) =
      some (next, pcAfter)) :
    Takes memory next transcript transcript (.scanFlag buffer offset moved allHandled)
      pcAfter := by
  obtain ⟨standing, start, within, inside, ahead, elsewhere⟩ := taking
  have notAll : moved = true →
      (allHandled && decide (memory.isSet buffer offset = .HANDLED)) = false := by
    intro hasMoved
    rcases (elsewhere hasMoved).2 with rfl | notHandled
    · refine Bool.and_eq_false_imp.mpr fun _ => decide_eq_false fun handled => ?_
      exact (holds.behind_of_handled sound within inside ahead handled).2 rfl
    · rw [notHandled, Bool.false_and]
  simp only [stepConsumer] at step
  split_ifs at step with full folds
  · obtain ⟨all, hasMoved⟩ := (Bool.and_eq_true ..).mp folds
    rw [notAll hasMoved] at all
    cases all
  · obtain ⟨rfl, rfl⟩ := Prod.mk.inj (Option.some.inj step)
    exact .of_same sound holds ⟨standing, start, within⟩ rfl
  · obtain ⟨rfl, rfl⟩ := Prod.mk.inj (Option.some.inj step)
    refine .of_same sound holds ⟨standing, start, within, Nat.lt_of_not_le full,
      ahead.trans (Nat.le_succ _), fun hasMoved => ?_⟩ rfl
    exact ⟨(elsewhere hasMoved).1, Or.inr (notAll hasMoved)⟩

theorem takes_scanNext {buffer : Address} (sound : transcript.Sound)
    (holds : Holds memory transcript) (taking : Taking memory transcript (.scanNext buffer))
    (step : stepConsumer memory (.scanNext buffer) = some (next, pcAfter)) :
    Takes memory next transcript transcript (.scanNext buffer) pcAfter := by
  obtain ⟨standing, start, within⟩ := taking
  rcases (Nat.succ_le_of_lt within).lt_or_eq with more | last
  · simp only [stepConsumer, holds.next _ more] at step
    obtain ⟨rfl, rfl⟩ := Prod.mk.inj (Option.some.inj step)
    have fresh : memory.head (buffer + 1) = 0 :=
      holds.heads _ (Nat.lt_succ_of_le start) more
    have behind : bufferSize * (memory.headOfQueue + 1) ≤ bufferSize * (buffer + 1) :=
      Nat.mul_le_mul_left _ (Nat.succ_le_succ start)
    refine .of_same sound holds ⟨standing, Nat.le_succ_of_le start, more,
      fresh.trans_lt (by decide), ?_, fun _ => ⟨Nat.lt_succ_of_le start, Or.inl fresh⟩⟩ rfl
    have head := holds.head
    rw [← holds.front]
    rw [Nat.mul_succ] at behind
    exact (Nat.add_le_add_left head _).trans (behind.trans (Nat.le_add_right ..))
  · simp only [stepConsumer, holds.last _ last] at step
    obtain ⟨rfl, rfl⟩ := Prod.mk.inj (Option.some.inj step)
    exact .of_same sound holds trivial rfl

section Rescan

variable {buffer offset scanBuffer scanOffset : Nat}

/-- The value found is the next one when the second scan has come to it. -/
theorem Rescans.next_of_met (sound : transcript.Sound) (holds : Holds memory transcript)
    (rescans : Rescans memory transcript buffer offset scanBuffer scanOffset)
    (met : scanBuffer = buffer ∧ offset ≤ scanOffset) :
    transcript.entries[transcript.taken]? =
      some (bufferSize * buffer + offset, memory.data buffer offset) := by
  obtain ⟨rfl, behind⟩ := met
  obtain ⟨index, data, waiting, isEntry⟩ := rescans.found
  obtain rfl := sound.eq_taken isEntry waiting fun other isOther =>
    (Nat.add_le_add_left behind _).trans (rescans.clear _ other le_rfl isOther)
  rw [isEntry, (holds.filled _ scanBuffer offset data rescans.inside isEntry).1]

/-- The value is taken from the head, or from a slot behind it. -/
theorem takes_found (sound : transcript.Sound) (holds : Holds memory transcript)
    (standing : memory.head memory.headOfQueue < bufferSize) (inside : offset < bufferSize)
    (isNext : transcript.entries[transcript.taken]? =
      some (bufferSize * buffer + offset, memory.data buffer offset)) :
    (buffer = memory.headOfQueue ∧ offset = memory.head memory.headOfQueue →
      Holds (memory.storeSlot buffer offset .HANDLED).advanceHead transcript.take) ∧
    (¬(buffer = memory.headOfQueue ∧ offset = memory.head memory.headOfQueue) →
      Holds (memory.storeSlot buffer offset .HANDLED) transcript.take) := by
  have slots := sound.next_slot isNext
  have more := sound.take (List.getElem?_eq_some_iff.mp isNext).1
  constructor
  · rintro ⟨rfl, rfl⟩
    have advanced := holds.advanceHead sound standing isNext
    refine advanced.storeSlot_before more standing (List.mem_of_getElem? isNext) rfl ?_
    rcases slots with ⟨same, grown⟩ | ⟨beyond, _⟩
    · exact same.trans_lt (grown ▸ Nat.lt_succ_self _)
    · exact absurd beyond (holds.front ▸ lt_irrefl _)
  · intro elsewhere
    refine holds.storeSlot sound inside isNext ?_
    rcases slots with ⟨same, _⟩ | ⟨beyond, _⟩
    · exact absurd (location_injective inside standing (same.trans holds.front.symm)) elsewhere
    · exact beyond

theorem takes_met (sound : transcript.Sound) (holds : Holds memory transcript)
    (rescans : Rescans memory transcript buffer offset scanBuffer scanOffset)
    (met : scanBuffer = buffer ∧ offset ≤ scanOffset)
    (step : stepConsumer memory (.rescan buffer offset scanBuffer scanOffset) =
      some (next, pcAfter)) :
    Takes memory next transcript transcript.take (.rescan buffer offset scanBuffer scanOffset)
      pcAfter := by
  have isNext := rescans.next_of_met sound holds met
  have more := sound.take (List.getElem?_eq_some_iff.mp isNext).1
  obtain ⟨atHead, elsewhere⟩ := takes_found sound holds rescans.standing rescans.inside isNext
  have values (given : List Value) (taken : given ++ [] = transcript.values.take transcript.taken) :
      given ++ [memory.data buffer offset] =
        transcript.take.values.take transcript.take.taken := by
    rw [(List.append_nil given).symm.trans taken]
    exact (Transcript.take_values isNext).symm
  rw [stepConsumer, if_pos met] at step
  split_ifs at step with here
  · obtain ⟨rfl, rfl⟩ := Prod.mk.inj (Option.some.inj step)
    refine ⟨more, atHead here, taking_moveToNextBuffer (atHead here), rfl, rfl, rfl, rfl,
      .inr ⟨_, inTransit_moveToNextBuffer ..⟩, fun given taken => ?_⟩
    rw [inTransit_moveToNextBuffer]
    exact values given taken
  · obtain ⟨rfl, rfl⟩ := Prod.mk.inj (Option.some.inj step)
    exact ⟨more, elsewhere here, trivial, rfl, rfl, rfl, rfl, .inr ⟨_, rfl⟩, values⟩

theorem takes_rescan (sound : transcript.Sound) (holds : Holds memory transcript)
    (rescans : Rescans memory transcript buffer offset scanBuffer scanOffset)
    (step : stepConsumer memory (.rescan buffer offset scanBuffer scanOffset) =
      some (next, pcAfter)) :
    ∃ after, Takes memory next transcript after (.rescan buffer offset scanBuffer scanOffset)
      pcAfter := by
  by_cases met : scanBuffer = buffer ∧ offset ≤ scanOffset
  · exact ⟨_, takes_met sound holds rescans met step⟩
  refine ⟨transcript, ?_⟩
  obtain ⟨standing, inside, start, scanned, ahead, reached, found, clear⟩ := rescans
  have within : buffer < memory.allocated := by
    obtain ⟨index, data, _, isEntry⟩ := found
    have below := holds.bound _ (List.mem_of_getElem? isEntry)
    simp only [bufferSize] at below
    omega
  have earlier : scanBuffer < buffer ∨ scanBuffer = buffer ∧ scanOffset < offset := by
    simp only [bufferSize] at inside reached
    omega
  rw [stepConsumer, if_neg met] at step
  split_ifs at step with full set
  · have before : scanBuffer < buffer := by omega
    have exists' : scanBuffer + 1 < memory.allocated := (Nat.succ_le_of_lt before).trans_lt within
    have same : bufferSize * (scanBuffer + 1) + 0 = bufferSize * scanBuffer + scanOffset := by
      rw [Nat.mul_succ, Nat.add_zero, Nat.le_antisymm scanned full]
    simp only [holds.next _ exists', holds.heads _ (Nat.lt_succ_of_le start) exists'] at step
    obtain ⟨rfl, rfl⟩ := Prod.mk.inj (Option.some.inj step)
    refine .of_same sound holds ⟨standing, inside, Nat.le_succ_of_le start, Nat.zero_le _, ?_, ?_,
      found, ?_⟩ rfl
    · exact ahead.trans_eq same.symm
    · exact same.trans_le reached
    · exact fun index entry waiting isEntry => same.trans_le (clear index entry waiting isEntry)
  · obtain ⟨rfl, rfl⟩ := Prod.mk.inj (Option.some.inj step)
    obtain ⟨index, waiting, isEntry⟩ :=
      holds.entry_of_set (by omega) (Nat.lt_of_not_le full) ahead set
    refine .of_same sound holds ⟨standing, Nat.lt_of_not_le full, le_rfl, holds.head,
      holds.front.ge, holds.front.trans_le ahead, ⟨index, _, waiting, isEntry⟩, ?_⟩ rfl
    exact fun other entry waits isOther => holds.front.trans_le (sound.front_le waits isOther)
  · obtain ⟨rfl, rfl⟩ := Prod.mk.inj (Option.some.inj step)
    have past (index : Nat) (entry : Nat × Value) (waiting : transcript.taken ≤ index)
        (isEntry : transcript.entries[index]? = some entry) :
        bufferSize * scanBuffer + (scanOffset + 1) ≤ entry.1 :=
      Nat.lt_of_le_of_ne (clear index entry waiting isEntry)
        (holds.ne_of_not_set (Nat.lt_of_not_le full) set waiting isEntry).symm
    obtain ⟨index, data, waiting, isEntry⟩ := found
    exact .of_same sound holds ⟨standing, inside, start, Nat.lt_of_not_le full,
      ahead.trans (Nat.le_succ _), past index _ waiting isEntry,
      ⟨index, data, waiting, isEntry⟩, past⟩ rfl

end Rescan

/-- Every access of the consumer keeps the memory and the transcript together. -/
theorem takes_of_step {pc : ConsumerPc Value} (sound : transcript.Sound)
    (holds : Holds memory transcript) (taking : Taking memory transcript pc)
    (step : stepConsumer memory pc = some (next, pcAfter)) :
    ∃ after, Takes memory next transcript after pc pcAfter := by
  cases pc with
  | idle | returning => cases step
  | moveTail => exact ⟨_, takes_moveTail sound holds taking step⟩
  | moveNext => exact ⟨_, takes_moveNext sound holds taking step⟩
  | collect => exact ⟨_, takes_collect sound holds taking step⟩
  | readHandled => exact ⟨_, takes_readHandled sound holds taking step⟩
  | compareBuffer =>
    rw [stepConsumer] at step
    split_ifs at step <;> obtain ⟨rfl, rfl⟩ := Prod.mk.inj (Option.some.inj step) <;>
      exact ⟨_, .of_same sound holds taking rfl⟩
  | compareTail =>
    rw [stepConsumer] at step
    split_ifs at step
    · obtain ⟨rfl, rfl⟩ := Prod.mk.inj (Option.some.inj step)
      exact ⟨_, .of_same sound holds trivial rfl⟩
    · obtain ⟨rfl, rfl⟩ := Prod.mk.inj (Option.some.inj step)
      exact ⟨_, .of_same sound holds taking rfl⟩
  | readSet => exact takes_readSet sound holds taking step
  | readEmpty => exact ⟨_, takes_readEmpty sound holds taking step⟩
  | scan => exact ⟨_, takes_scan sound holds taking step⟩
  | scanFlag => exact ⟨_, takes_scanFlag sound holds taking step⟩
  | scanNext => exact ⟨_, takes_scanNext sound holds taking step⟩
  | foldTail | foldNext | foldPrev | foldLink | foldFree => exact taking.elim
  | rescan => exact takes_rescan sound holds taking step

end Access

/-! ### Every run -/

/-- The state of a queue with one producer, by what has been published and taken. -/
structure Serial (labels : List (Label Unit Value)) (state : State Unit Value)
    (transcript : Transcript Value) : Prop where
  sound : transcript.Sound
  holds : Holds state.memory transcript
  placing : Placing state.memory transcript.entries (state.producers ())
  taking : Taking state.memory transcript state.consumer
  called : called labels = transcript.values ++ (state.producers ()).pending
  returned : returned labels ++ state.consumer.inTransit =
    transcript.values.take transcript.taken

section Step

variable [DecidableEq Value] {labels : List (Label Unit Value)} {state target : State Unit Value}

theorem Serial.step_producer (serial : Serial labels state transcript)
    (step : perform state (.producer ()) = some target) :
    ∃ after, Serial (labels ++ [.producer ()]) target after := by
  obtain ⟨memory, pc, access, rfl⟩ := perform_producer step
  obtain ⟨after, writes⟩ := writes_of_step serial.sound serial.holds serial.placing access
  refine ⟨after, writes.sound, writes.holds, writes.placing, writes.taking serial.taking, ?_, ?_⟩
  · rw [called_append, serial.called, ← writes.values]
    exact List.append_nil _
  · rw [returned_append, writes.taken]
    obtain ⟨more, isAfter⟩ := writes.entries
    have values : after.values = transcript.values ++ more.map Prod.snd := by
      rw [Transcript.values, ← isAfter, List.map_append, ← Transcript.values]
    rw [values, List.take_append_of_le_length (by
      rw [Transcript.values, List.length_map]
      exact serial.sound.taken), ← serial.returned]
    exact congrArg (· ++ _) (List.append_nil _)

theorem Serial.step_consumer (serial : Serial labels state transcript)
    (step : perform state .consumer = some target) :
    ∃ after, Serial (labels ++ [.consumer]) target after ∧
      Takes state.memory target.memory transcript after state.consumer target.consumer := by
  obtain ⟨memory, pc, access, rfl⟩ := perform_consumer step
  obtain ⟨after, takes⟩ := takes_of_step serial.sound serial.holds serial.taking access
  refine ⟨after, ⟨takes.sound, takes.holds, takes.placing serial.placing, takes.taking, ?_, ?_⟩,
    takes⟩
  · rw [called_append, serial.called, Transcript.values, Transcript.values, takes.entries]
    exact List.append_nil _
  · rw [returned_append]
    exact takes.values _ ((congrArg (· ++ _) (List.append_nil _)).trans serial.returned)

/-- A step of the queue keeps it in series. -/
theorem Serial.step (serial : Serial labels state transcript) {label : Label Unit Value}
    (step : perform state label = some target) :
    ∃ after, Serial (labels ++ [label]) target after := by
  have placing := serial.placing
  have calls := serial.called
  have returns := serial.returned
  cases label with
  | enqueueCall producer data =>
    obtain ⟨idle, rfl⟩ := perform_enqueueCall step
    obtain rfl : producer = () := rfl
    rw [idle] at placing calls
    refine ⟨transcript, serial.sound, serial.holds, ?_, serial.taking, ?_, ?_⟩
    · simp only [Function.update_self]
      exact placing
    · simp only [Function.update_self]
      rw [called_append, calls]
      exact congrArg (· ++ [data]) (List.append_nil _)
    · rw [returned_append]
      exact (congrArg (· ++ _) (List.append_nil _)).trans returns
  | enqueueReturn producer data =>
    obtain ⟨returning, rfl⟩ := perform_enqueueReturn step
    obtain rfl : producer = () := rfl
    rw [returning] at placing calls
    refine ⟨transcript, serial.sound, serial.holds, ?_, serial.taking, ?_, ?_⟩
    · simp only [Function.update_self]
      exact placing
    · simp only [Function.update_self]
      rw [called_append, calls]
      exact List.append_nil _
    · rw [returned_append]
      exact (congrArg (· ++ _) (List.append_nil _)).trans returns
  | dequeueCall =>
    obtain ⟨idle, rfl⟩ := perform_dequeueCall step
    have starts := @taking_moveToNextBuffer _ _ _ .check serial.holds
    rw [moveToNextBuffer_check] at starts
    refine ⟨transcript, serial.sound, serial.holds, placing, starts, ?_, ?_⟩
    · rw [called_append, calls]
      exact List.append_nil _
    · rw [idle] at returns
      rw [returned_append, inTransit_resume]
      exact (congrArg (· ++ _) (List.append_nil _)).trans returns
  | dequeueReturn result =>
    obtain ⟨returning, rfl⟩ := perform_dequeueReturn step
    rw [returning] at returns
    refine ⟨transcript, serial.sound, serial.holds, placing, trivial, ?_, ?_⟩
    · rw [called_append, calls]
      exact List.append_nil _
    · rw [returned_append, ← returns]
      cases result with
      | none => exact congrArg (· ++ []) (List.append_nil _)
      | some data => exact List.append_nil _
  | producer producer =>
    obtain rfl : producer = () := rfl
    exact serial.step_producer step
  | consumer =>
    obtain ⟨after, next, _⟩ := serial.step_consumer step
    exact ⟨after, next⟩

variable [Inhabited Value]

/-- Every run of a queue with one producer is in series. -/
theorem run_serial (run : Run system labels state) :
    ∃ transcript, Serial labels state transcript := by
  refine run.invariant (fun labels state => ∃ transcript, Serial labels state transcript) ?_ ?_
  · rintro state rfl
    exact ⟨.empty, .empty, .construct, ⟨rfl, rfl, .empty⟩, trivial, rfl, rfl⟩
  · rintro labels source label target _ ⟨transcript, serial⟩ step
    exact serial.step step

/-- One producer's values are returned in the order of their enqueues, none left out. -/
theorem returned_isPrefix (run : Run system labels state) : returned labels <+: called labels := by
  obtain ⟨transcript, serial⟩ := run_serial run
  have taken : returned labels <+: transcript.values.take transcript.taken :=
    serial.returned ▸ List.prefix_append ..
  rw [serial.called]
  exact (taken.trans (List.take_prefix ..)).trans (List.prefix_append ..)

end Step

/-! ### A call that finds the queue empty -/

/-- All values published have been taken, or the next one lies at the slot or behind it. -/
def Transcript.Clear (transcript : Transcript Value) (slot : Nat) : Prop :=
  ∀ entry, transcript.entries[transcript.taken]? = some entry → slot ≤ entry.1

/-- What a call of dequeue has found while nothing is being enqueued. -/
def Searched (memory : Memory Value) (transcript : Transcript Value) : ConsumerPc Value → Prop
  | .compareTail => memory.headOfQueue = memory.tailOfQueue
  | .readEmpty => transcript.Clear (transcript.front + 1)
  | .scan buffer offset _ _ => transcript.Clear (bufferSize * buffer + offset)
  | .scanFlag buffer offset _ _ => transcript.Clear (bufferSize * buffer + offset + 1)
  | .scanNext buffer => transcript.Clear (bufferSize * (buffer + 1))
  | .returning none => transcript.entries.length ≤ transcript.taken
  | _ => True

section Search

variable {pcAfter : ConsumerPc Value}

theorem Transcript.Clear.all (holds : Holds memory transcript)
    (clear : transcript.Clear (bufferSize * memory.allocated)) :
    transcript.entries.length ≤ transcript.taken := by
  refine Nat.le_of_not_lt fun waiting => ?_
  have isEntry := List.getElem?_eq_getElem waiting
  exact absurd (holds.bound _ (List.mem_of_getElem? isEntry)) (Nat.not_lt.mpr (clear _ isEntry))

theorem clear_front (sound : transcript.Sound) : transcript.Clear transcript.front :=
  fun _ isEntry => sound.front_le le_rfl isEntry

/-- A slot that is not set is passed. -/
theorem Transcript.Clear.pass (holds : Holds memory transcript) {buffer offset : Nat}
    (clear : transcript.Clear (bufferSize * buffer + offset)) (inside : offset < bufferSize)
    (unset : memory.isSet buffer offset ≠ .SET) :
    transcript.Clear (bufferSize * buffer + offset + 1) :=
  fun entry isEntry => Nat.lt_of_le_of_ne (clear entry isEntry)
    (holds.ne_of_not_set inside unset le_rfl isEntry).symm

/-- When the head stands behind the last slot, everything has been taken. -/
theorem all_of_full (sound : transcript.Sound) (holds : Holds memory transcript)
    (full : memory.head memory.headOfQueue = bufferSize)
    (last : memory.headOfQueue + 1 = memory.allocated) :
    transcript.entries.length ≤ transcript.taken := by
  refine Transcript.Clear.all holds ?_
  have front := holds.front
  rw [full, ← Nat.mul_succ, Nat.succ_eq_add_one, last] at front
  rw [front]
  exact clear_front sound

/-- When the head is where the next value would go, everything has been taken. -/
theorem all_of_equal (sound : transcript.Sound) (holds : Holds memory transcript)
    (settled : Settled memory transcript.entries transcript.entries.length)
    (buffer : memory.headOfQueue = memory.tailOfQueue)
    (equal : memory.head memory.headOfQueue = memory.tail % bufferSize) :
    transcript.entries.length ≤ transcript.taken := by
  have front := holds.front
  have taken := sound.taken
  rw [equal, settled.tail, buffer, Transcript.front] at front
  rcases Nat.lt_or_ge transcript.entries.length gap with early | late
  · have isLast := settled.room.early early
    simp only [gap_eq, bufferSize] at early isLast front
    omega
  · obtain ⟨beyond, _⟩ := settled.room.late late
    simp only [gap, unwrapped, bufferSize] at beyond front
    omega

theorem searched_of_inTransit {data : Value} (hands : pcAfter.inTransit = [data]) :
    Searched memory transcript pcAfter := by
  cases pcAfter with
  | returning result =>
    cases result with
    | none => cases hands
    | some data => trivial
  | moveTail | moveNext | collect => trivial
  | _ => cases hands

theorem searched_resume (caller : Caller Value) :
    Searched memory transcript (resume next caller true) := by
  cases caller with
  | check =>
    rw [resume]
    split_ifs <;> trivial
  | handled | taken => trivial

theorem searched_moveToNextBuffer (caller : Caller Value) :
    Searched memory transcript (moveToNextBuffer next caller) := by
  rw [moveToNextBuffer]
  split_ifs
  · trivial
  · exact searched_resume caller

theorem searched_resume_false (caller : Caller Value)
    (all : transcript.entries.length ≤ transcript.taken) :
    Searched memory transcript (resume next caller false) := by
  cases caller with
  | check | handled => exact all
  | taken => trivial

/-- The slot at the head is empty when it is not set. -/
theorem empty_of_clear (sound : transcript.Sound) (holds : Holds memory transcript)
    (inside : memory.head memory.headOfQueue < bufferSize)
    (clear : transcript.Clear (transcript.front + 1)) :
    memory.isSet memory.headOfQueue (memory.head memory.headOfQueue) = .EMPTY := by
  cases slot : memory.isSet memory.headOfQueue (memory.head memory.headOfQueue) with
  | EMPTY => rfl
  | SET =>
    have isNext := next_of_set sound holds holds.reached inside holds.front.ge slot
      fun other isEntry => holds.front.trans_le (sound.front_le le_rfl isEntry)
    have behind := clear _ isNext
    rw [holds.front] at behind
    exact absurd behind (Nat.not_succ_le_self _)
  | HANDLED =>
    have behind := holds.behind_of_handled sound holds.reached inside holds.front.ge slot
    exact absurd behind.1 (holds.front ▸ lt_irrefl _)

theorem searched_scanFlag {buffer offset : Nat} {moved allHandled : Bool}
    (taking : Taking memory transcript (.scanFlag buffer offset moved allHandled))
    (searched : Searched memory transcript (.scanFlag buffer offset moved allHandled))
    (after : Taking next transcript pcAfter)
    (step : stepConsumer memory (.scanFlag buffer offset moved allHandled) =
      some (next, pcAfter)) : Searched next transcript pcAfter := by
  simp only [stepConsumer] at step
  split_ifs at step with full folds
  · obtain ⟨rfl, rfl⟩ := Prod.mk.inj (Option.some.inj step)
    exact after.elim
  · obtain ⟨rfl, rfl⟩ := Prod.mk.inj (Option.some.inj step)
    have ends : bufferSize * buffer + offset + 1 = bufferSize * (buffer + 1) := by
      have whole : offset + 1 = bufferSize := Nat.le_antisymm taking.inside full
      rw [Nat.mul_succ, Nat.add_assoc, whole]
    exact fun entry isEntry => ends.symm.trans_le (searched entry isEntry)
  · obtain ⟨rfl, rfl⟩ := Prod.mk.inj (Option.some.inj step)
    exact searched

/-- A scan that finds no further buffer has found everything taken. -/
theorem searched_scanNext {buffer : Address} (holds : Holds memory transcript)
    (taking : Taking memory transcript (.scanNext buffer))
    (searched : Searched memory transcript (.scanNext buffer))
    (step : stepConsumer memory (.scanNext buffer) = some (next, pcAfter)) :
    Searched next transcript pcAfter := by
  obtain ⟨_, start, within⟩ := taking
  rcases (Nat.succ_le_of_lt within).lt_or_eq with more | last
  · simp only [stepConsumer, holds.next _ more, holds.heads _ (Nat.lt_succ_of_le start) more]
      at step
    obtain ⟨rfl, rfl⟩ := Prod.mk.inj (Option.some.inj step)
    exact searched
  · simp only [stepConsumer, holds.last _ last] at step
    obtain ⟨rfl, rfl⟩ := Prod.mk.inj (Option.some.inj step)
    refine Transcript.Clear.all holds fun entry isEntry => ?_
    rw [← last]
    exact searched entry isEntry

theorem searched_rescan {buffer offset scanBuffer scanOffset : Nat}
    (step : stepConsumer memory (.rescan buffer offset scanBuffer scanOffset) =
      some (next, pcAfter)) : Searched next transcript pcAfter := by
  rw [stepConsumer] at step
  split_ifs at step
  · obtain ⟨rfl, rfl⟩ := Prod.mk.inj (Option.some.inj step)
    exact searched_moveToNextBuffer _
  · obtain ⟨rfl, rfl⟩ := Prod.mk.inj (Option.some.inj step)
    trivial
  · split at step
    · cases step
    · obtain ⟨rfl, rfl⟩ := Prod.mk.inj (Option.some.inj step)
      trivial
  · obtain ⟨rfl, rfl⟩ := Prod.mk.inj (Option.some.inj step)
    trivial
  · obtain ⟨rfl, rfl⟩ := Prod.mk.inj (Option.some.inj step)
    trivial

/-- An access of the consumer passes no value while the producer is outside of enqueue. -/
theorem searched_of_step {pc : ConsumerPc Value} (sound : transcript.Sound)
    (holds : Holds memory transcript)
    (settled : Settled memory transcript.entries transcript.entries.length)
    (taking : Taking memory transcript pc) (searched : Searched memory transcript pc)
    (takes : Takes memory next transcript after pc pcAfter)
    (step : stepConsumer memory pc = some (next, pcAfter)) : Searched next after pcAfter := by
  rcases takes.kept with rfl | ⟨data, hands⟩
  case inr => exact searched_of_inTransit hands
  cases pc with
  | idle | returning => cases step
  | moveTail caller =>
    rw [stepConsumer] at step
    split_ifs at step with last
    · obtain ⟨rfl, rfl⟩ := Prod.mk.inj (Option.some.inj step)
      exact searched_resume_false caller
        (all_of_full sound holds taking (last ▸ settled.last))
    · obtain ⟨rfl, rfl⟩ := Prod.mk.inj (Option.some.inj step)
      trivial
  | moveNext caller =>
    rcases (Nat.succ_le_of_lt holds.reached).lt_or_eq with within | last
    · simp only [stepConsumer, holds.next _ within] at step
      obtain ⟨rfl, rfl⟩ := Prod.mk.inj (Option.some.inj step)
      trivial
    · simp only [stepConsumer, holds.last _ last] at step
      obtain ⟨rfl, rfl⟩ := Prod.mk.inj (Option.some.inj step)
      exact searched_resume_false caller (all_of_full sound holds taking last)
  | collect caller behind =>
    simp only [stepConsumer, holds.garbage] at step
    obtain ⟨rfl, rfl⟩ := Prod.mk.inj (Option.some.inj step)
    exact searched_resume caller
  | readHandled =>
    rw [stepConsumer] at step
    split_ifs at step
    · obtain ⟨rfl, rfl⟩ := Prod.mk.inj (Option.some.inj step)
      exact searched_moveToNextBuffer _
    · obtain ⟨rfl, rfl⟩ := Prod.mk.inj (Option.some.inj step)
      trivial
  | compareBuffer =>
    rw [stepConsumer] at step
    split_ifs at step with same
    · obtain ⟨rfl, rfl⟩ := Prod.mk.inj (Option.some.inj step)
      exact same
    · obtain ⟨rfl, rfl⟩ := Prod.mk.inj (Option.some.inj step)
      trivial
  | compareTail =>
    rw [stepConsumer] at step
    split_ifs at step with equal
    · obtain ⟨rfl, rfl⟩ := Prod.mk.inj (Option.some.inj step)
      exact all_of_equal sound holds settled searched equal
    · obtain ⟨rfl, rfl⟩ := Prod.mk.inj (Option.some.inj step)
      trivial
  | readSet =>
    rw [stepConsumer] at step
    split_ifs at step with set
    · obtain ⟨rfl, rfl⟩ := Prod.mk.inj (Option.some.inj step)
      exact searched_moveToNextBuffer _
    · obtain ⟨rfl, rfl⟩ := Prod.mk.inj (Option.some.inj step)
      have clear := clear_front sound
      rw [← holds.front] at clear
      have passed := clear.pass holds taking set
      rwa [holds.front] at passed
  | readEmpty =>
    rw [stepConsumer, if_pos (empty_of_clear sound holds taking searched)] at step
    obtain ⟨rfl, rfl⟩ := Prod.mk.inj (Option.some.inj step)
    exact fun entry isEntry => holds.front.trans_le (clear_front sound entry isEntry)
  | scan buffer offset moved allHandled =>
    rw [stepConsumer] at step
    split_ifs at step with set
    · obtain ⟨rfl, rfl⟩ := Prod.mk.inj (Option.some.inj step)
      trivial
    · obtain ⟨rfl, rfl⟩ := Prod.mk.inj (Option.some.inj step)
      exact Transcript.Clear.pass holds searched taking.inside set
  | scanFlag => exact searched_scanFlag taking searched takes.taking step
  | scanNext => exact searched_scanNext holds taking searched step
  | foldTail | foldNext | foldPrev | foldLink | foldFree => exact taking.elim
  | rescan => exact searched_rescan step

variable [DecidableEq Value] [Inhabited Value] {labels middle : List (Label Unit Value)}
  {state source target : State Unit Value}

/-- A call of dequeue passes no value while nothing is being enqueued. -/
theorem searched_of_steps (serial : Serial labels source transcript)
    (idle : source.producers () = .idle)
    (searched : Searched source.memory transcript source.consumer)
    (consumes : ∀ label ∈ middle, label = .consumer)
    (steps : Steps system source middle target) :
    ∃ after, Serial (labels ++ middle) target after ∧ target.producers () = .idle ∧
      Searched target.memory after target.consumer := by
  induction steps generalizing labels transcript with
  | nil => exact ⟨transcript, by rwa [List.append_nil], idle, searched⟩
  | @cons source between target label rest step _ inductionHypothesis =>
    obtain rfl := consumes label List.mem_cons_self
    obtain ⟨after, next, takes⟩ := serial.step_consumer step
    obtain ⟨memory, pc, access, rfl⟩ := perform_consumer step
    have settled : Placing source.memory transcript.entries .idle := idle ▸ serial.placing
    have found := searched_of_step serial.sound serial.holds settled serial.taking searched takes
      access
    obtain ⟨last, there, still, inside⟩ := inductionHypothesis next idle found
      fun other member => consumes other (List.mem_cons_of_mem _ member)
    rw [List.append_assoc] at there
    exact ⟨last, there, still, inside⟩

omit [DecidableEq Value] [Inhabited Value] in
/-- The accesses of the consumer alone return and enqueue nothing. -/
theorem consumed_labels (consumes : ∀ label ∈ middle, label = .consumer) :
    returned middle = [] ∧ called middle = [] := by
  constructor <;>
    refine List.filterMap_eq_nil_iff.mpr fun label member => ?_ <;>
    rw [consumes label member]

/-- A dequeue during which the producer enqueues nothing returns without a value only after all the
values have been returned. -/
theorem all_returned_of_quiet {front : List (Label Unit Value)} (run : Run system front source)
    (quiet : Quiet source) (consumes : ∀ label ∈ middle, label = .consumer)
    (steps : Steps system source (.dequeueCall :: (middle ++ [Label.dequeueReturn none])) target) :
    returned front = called front := by
  obtain ⟨transcript, serial⟩ := run_serial run
  cases steps with
  | cons call rest =>
  obtain ⟨last, accesses, answer⟩ := rest.split
  obtain ⟨before, called⟩ := serial.step call
  obtain ⟨_, rfl⟩ := perform_dequeueCall call
  obtain ⟨after, there, idle, searched⟩ :=
    searched_of_steps called (quiet ()) (searched_resume .check) consumes accesses
  cases answer with
  | cons returns _ =>
  obtain ⟨returning, _⟩ := perform_dequeueReturn returns
  rw [returning] at searched
  obtain ⟨nothing, uncalled⟩ := consumed_labels consumes
  have calls : MPSCQueue.called front = after.values := by
    have all := there.called
    rw [called_append, called_append, uncalled, idle] at all
    simpa [MPSCQueue.called, ProducerPc.pending] using all
  have values : MPSCQueue.returned front = after.values.take after.taken := by
    have all := there.returned
    rw [returned_append, returned_append, nothing, returning] at all
    simpa [MPSCQueue.returned, ConsumerPc.inTransit] using all
  rw [calls, values]
  refine List.take_of_length_le ?_
  rw [Transcript.values, List.length_map]
  exact searched

/-- One producer's queue stays in order however many values are enqueued, which are at most
`2 ^ 32 - 3`: the values are returned in the order of their enqueues, none left out, and a dequeue
during which nothing is enqueued returns without a value only after all of them. -/
theorem single_producer_in_order (run : Run system labels state) :
    returned labels <+: called labels ∧ (called labels).length + 3 ≤ 2 ^ 32 ∧
      ∀ front middle source,
        labels = front ++ .dequeueCall :: (middle ++ [Label.dequeueReturn none]) →
        Run system front source → Quiet source → (∀ label ∈ middle, label = .consumer) →
        returned labels = called labels := by
  refine ⟨returned_isPrefix run, ?_, ?_⟩
  · obtain ⟨transcript, serial⟩ := run_serial run
    have few := serial.sound.few
    have one := pending_length_le (state.producers ())
    rw [serial.called, List.length_append, Transcript.values, List.length_map]
    omega
  · rintro front middle source rfl prior quiet consumes
    obtain ⟨other, before, steps⟩ := run.split
    obtain rfl : other = source := by
      refine before.unique prior (fun _ _ one other => one.trans other.symm) ?_
      exact fun _ _ _ _ one other => Option.some.inj (one.symm.trans other)
    have all := all_returned_of_quiet prior quiet consumes steps
    obtain ⟨nothing, uncalled⟩ := consumed_labels consumes
    have returns : returned (.dequeueCall :: (middle ++ [Label.dequeueReturn none])) =
        ([] : List Value) := by
      change returned (middle ++ [Label.dequeueReturn none]) = []
      rw [returned_append, nothing]
      rfl
    have calls : called (.dequeueCall :: (middle ++ [Label.dequeueReturn none])) =
        ([] : List Value) := by
      change called (middle ++ [Label.dequeueReturn none]) = []
      rw [called_append, uncalled]
      rfl
    rw [returned_append, called_append, returns, calls, all]

end Search

namespace Sample

/-- The second enqueue overlaps the first dequeue, and both values are returned. -/
def alternating : List (Label Unit Nat) :=
  List.flatten [[.enqueueCall () 10], List.replicate 6 (.producer ()),
    [.enqueueReturn () 10, .enqueueCall () 11, .producer (), .dequeueCall],
    List.replicate 4 .consumer, [.dequeueReturn (some 10)], List.replicate 5 (.producer ()),
    [.enqueueReturn () 11, .dequeueCall], List.replicate 4 .consumer, [.dequeueReturn (some 11)]]

/-- The next dequeue finds the queue empty. -/
def alternatingEnd : List (Label Unit Nat) :=
  .dequeueCall :: (List.replicate 3 Label.consumer ++ [Label.dequeueReturn none])

/-- The state before that dequeue. -/
def alternated : State Unit Nat :=
  (execute (fun _ _ => True) .start alternating).get (by decide +kernel)

theorem alternating_run : Run system alternating alternated := by
  have executes : (execute (fun _ _ => True) .start alternating).isSome = true := by
    decide +kernel
  have steps : Steps system .start alternating alternated :=
    (steps_of_execute (Option.some_get executes).symm).of_restrict
  have whole : Run system ([] ++ alternating) alternated := Run.append (.start rfl) steps
  exact whole

theorem alternatingEnd_steps : ∃ state, Steps system alternated alternatingEnd state := by
  have executes : (execute (fun _ _ => True) alternated alternatingEnd).isSome = true := by
    decide +kernel
  exact ⟨_, (steps_of_execute (Option.some_get executes).symm).of_restrict⟩

end Sample

theorem single_producer_in_order_sample :
    returned (Sample.alternating ++ Sample.alternatingEnd) = [10, 11] ∧
      returned (Sample.alternating ++ Sample.alternatingEnd) =
        called (Sample.alternating ++ Sample.alternatingEnd) := by
  obtain ⟨state, steps⟩ := Sample.alternatingEnd_steps
  obtain ⟨_, _, all⟩ := single_producer_in_order (Sample.alternating_run.append steps)
  refine ⟨rfl, all Sample.alternating (List.replicate 3 .consumer) Sample.alternated rfl
    Sample.alternating_run ?_ fun label member => List.eq_of_mem_replicate member⟩
  rintro ⟨⟩
  decide +kernel

end MarketSandbox.MPSCQueue
