/-
This file proves that the queue in sequential use is a list. A call of enqueue
finds the slot behind the last one written and appends at most one buffer; a
call of dequeue takes the first value that is there, or runs through the slots
ahead and finds none. The cases that matter are at the end of a buffer, where
the next one is appended two slots early, the head meets the tail, and the scan
runs over a buffer nobody has filled yet.
-/

import MarketSandbox.Queue.Solo

namespace MarketSandbox.MPSCQueue

variable {Value : Type} {memory : Memory Value} {view : View Value}

/-- The values that have been enqueued and not yet dequeued. -/
def View.contents (view : View Value) : List Value := view.channel.claimed.drop view.front

/-- The location counter stays before the first buffer whose end wraps. -/
def View.Early (view : View Value) : Prop := view.claims + 617 < 2 ^ 32

theorem View.Early.fits (early : view.Early) (wellFormed : view.WellFormed) : view.Fits := by
  have bounded := wellFormed.bounded
  have tailBound := wellFormed.tail_lt
  simp only [View.Early, View.Fits, bufferSize] at early bounded ⊢
  omega

/-! ### Calls and returns -/

section Turns

variable {producer nextProducer : ProducerPc Value} {consumer nextConsumer : ConsumerPc Value}

theorem Solo.turn_producer (solo : Solo memory producer consumer view)
    (holds : nextProducer.Holds view) (location : nextProducer.location = producer.location)
    (linking : nextProducer.linking = producer.linking)
    (preallocating : nextProducer.preallocating = producer.preallocating) :
    Solo memory nextProducer consumer view := by
  obtain ⟨wellFormed, represents, _, consumes, _⟩ := solo.sound
  refine solo.turn ⟨wellFormed, represents, fun _ => holds, consumes, fun _ _ _ _ _ => rfl⟩ ?_
  obtain ⟨empty, lagging, filled⟩ := solo.attended
  simp only [← location, ← linking, ← preallocating] at empty lagging filled
  exact ⟨empty, lagging, filled⟩

theorem Solo.turn_consumer (solo : Solo memory producer consumer view)
    (holds : nextConsumer.Holds view) : Solo memory producer nextConsumer view := by
  obtain ⟨wellFormed, represents, produces, _, distinct⟩ := solo.sound
  exact solo.turn ⟨wellFormed, represents, produces, holds, distinct⟩ solo.attended

/-- The consumer is not past the claims. -/
theorem Solo.front_le (solo : Solo memory producer consumer view) : view.front ≤ view.claims := by
  by_contra beyond
  have wellFormed := solo.wellFormed
  exact lt_irrefl _ (wellFormed.claimed (wellFormed.passed view.claims (Nat.not_le.mp beyond)))

end Turns

/-! ### A call of enqueue -/

/-- No location is claimed, the head stays where it is, and the buffers stay. -/
structure View.Continues (view final : View Value) : Prop where
  claimed : final.channel.claimed = view.channel.claimed
  front : final.front = view.front
  length_le : view.length ≤ final.length
  buffer : ∀ index < view.length, final.buffer index = view.buffer index

theorem View.Continues.refl (view : View Value) : view.Continues view :=
  ⟨rfl, rfl, le_rfl, fun _ _ => rfl⟩

theorem View.Continues.trans {grown final : View Value} (first : view.Continues grown)
    (second : grown.Continues final) : view.Continues final where
  claimed := second.claimed.trans first.claimed
  front := second.front.trans first.front
  length_le := first.length_le.trans second.length_le
  buffer index bound :=
    (second.buffer index (bound.trans_le first.length_le)).trans (first.buffer index bound)

theorem View.Produces.continues {grown : View Value} (produces : view.Produces grown)
    (claimed : grown.channel.claimed = view.channel.claimed) : view.Continues grown :=
  ⟨claimed, produces.front_eq, produces.length_le, produces.buffer⟩

section Enqueue

variable {data : Value} {location : Nat} {consumer : ConsumerPc Value}

/-- The rest of a call of enqueue returns, having appended buffers up to a bound on the
addresses. -/
def Finishes (memory : Memory Value) (pc : ProducerPc Value) (view : View Value) (data : Value)
    (bound : Nat) : Prop :=
  ∃ last final, Relation.ReflTransGen EnqueueAccess (memory, pc) (last, .returning data) ∧
    Solo last (.returning data) .idle final ∧ last.allocated ≤ bound ∧ view.Continues final

theorem Finishes.access {next : Memory Value} {pc nextPc : ProducerPc Value} {grown : View Value}
    {bound : Nat} (rest : Finishes next nextPc grown data bound) (inside : pc.Inside memory)
    (step : stepProducer memory pc = some (next, nextPc))
    (continues : view.Continues grown) : Finishes memory pc view data bound := by
  obtain ⟨last, final, accesses, solo, allocated, further⟩ := rest
  exact ⟨last, final, .head ⟨inside, step⟩ accesses, solo, allocated, continues.trans further⟩

theorem Solo.finishes (solo : Solo memory (.returning data) .idle view) :
    Finishes memory (.returning data) view data memory.allocated :=
  ⟨memory, view, .refl, solo, le_rfl, .refl view⟩

theorem observeExchange_claimed (tempTail : Address) :
    (view.observeExchange memory tempTail).channel.claimed = view.channel.claimed := by
  rw [View.observeExchange]
  split <;> rfl

theorem observeLink_claimed (tempTail : Address) :
    (view.observeLink memory tempTail).channel.claimed = view.channel.claimed ∧
      (view.observeLink memory tempTail).tailIndex = view.tailIndex := by
  rw [View.observeLink]
  split <;> exact ⟨rfl, rfl⟩

theorem exchangeTail_allocated (tempTail newBuffer : Address) :
    (memory.exchangeTail tempTail newBuffer).allocated = memory.allocated := by
  rw [Memory.exchangeTail]
  split <;> rfl

theorem Solo.finishes_preallocateTail {tempTail newBuffer : Address} (fits : view.Fits)
    (solo : Solo memory (.preallocateTail data tempTail newBuffer) .idle view) :
    Finishes memory (.preallocateTail data tempTail newBuffer) view data memory.allocated := by
  obtain ⟨after, produces⟩ := solo.produce fits rfl
  have rest := after.finishes
  rw [exchangeTail_allocated] at rest
  exact rest.access trivial rfl (produces.continues (observeExchange_claimed tempTail))

/-- The buffer appended in advance is the only one. -/
theorem Solo.finishes_preallocateNext {tempTail : Address} (fits : view.Fits)
    (solo : Solo memory (.preallocateNext data tempTail) .idle view) :
    Finishes memory (.preallocateNext data tempTail) view data (memory.allocated + 1) := by
  cases next : memory.next tempTail with
  | none =>
    have step : stepProducer memory (.preallocateNext data tempTail) = some
        (memory.linkNext tempTail, .preallocateTail data tempTail memory.allocated) := by
      simp only [stepProducer, next]
    obtain ⟨after, produces⟩ := solo.produce fits step
    rw [View.observeProducer, if_pos next] at after produces
    obtain ⟨claimed, tail⟩ : (view.observeLink memory tempTail).channel.claimed =
        view.channel.claimed ∧ (view.observeLink memory tempTail).tailIndex = view.tailIndex :=
      observeLink_claimed tempTail
    have stillFits : (view.observeLink memory tempTail).Fits := by
      rw [View.Fits, View.claims, claimed, tail]
      exact fits
    exact (after.finishes_preallocateTail stillFits).access trivial step
      (produces.continues claimed)
  | some other =>
    have step : stepProducer memory (.preallocateNext data tempTail) =
        some (memory, .returning data) := by
      simp only [stepProducer, next]
    obtain ⟨after, produces⟩ := solo.produce fits step
    rw [View.observeProducer, if_neg (by rw [next]; exact Option.some_ne_none other)] at after
    obtain ⟨last, final, accesses, ends, allocated, continues⟩ := after.finishes
    exact ⟨last, final, .head ⟨trivial, step⟩ accesses, ends, Nat.le_succ_of_le allocated,
      continues⟩

/-- The slot that a producer has located is there. -/
theorem Solo.located_inside {prevSize : Nat} {tempTail : Address} {isLastBuffer : Bool}
    {producer : ProducerPc Value} (solo : Solo memory producer consumer view)
    (owned : view.Owned data location)
    (located : view.Located location prevSize tempTail isLastBuffer) :
    prevSize ≤ location ∧ memory.HasSlot tempTail (location - prevSize) := by
  have offset := (solo.sound.located_slot located).1
  obtain ⟨reached, rfl, rfl, _⟩ := located
  have behind : view.front ≤ location := by
    by_contra passed
    exact solo.wellFormed.passed location (Nat.not_le.mp passed) owned.1
  have above : view.headIndex ≤ location / bufferSize := by
    simp only [View.front, bufferSize] at behind ⊢
    omega
  refine ⟨Nat.mul_div_le location bufferSize, ?_⟩
  rw [offset]
  exact solo.hasSlot above (reached.trans_lt solo.wellFormed.tail_lt)
    (Nat.mod_lt _ (by decide))

theorem Solo.finishes_publish {prevSize : Nat} {tempTail : Address} {isLastBuffer : Bool}
    (fits : view.Fits)
    (solo : Solo memory (.publish data location prevSize tempTail isLastBuffer) .idle view) :
    Finishes memory (.publish data location prevSize tempTail isLastBuffer) view data
      (memory.allocated + 1) := by
  obtain ⟨owned, located⟩ : view.Owned data location ∧
    view.Located location prevSize tempTail isLastBuffer := solo.sound.producers ()
  have inside := solo.located_inside owned located
  by_cases last : location - prevSize = bufferSize - 2 ∧ isLastBuffer = true
  · have step : stepProducer memory (.publish data location prevSize tempTail isLastBuffer) =
        some (memory.fillSlot tempTail (location - prevSize) data,
          .preallocateNext data tempTail) := by
      rw [stepProducer, if_pos last]
    obtain ⟨after, produces⟩ := solo.produce fits step
    have stillFits : (view.publish location).Fits := fits
    exact (after.finishes_preallocateNext stillFits).access inside step (produces.continues rfl)
  · have step : stepProducer memory (.publish data location prevSize tempTail isLastBuffer) =
        some (memory.fillSlot tempTail (location - prevSize) data, .returning data) := by
      rw [stepProducer, if_neg last]
    obtain ⟨after, produces⟩ := solo.produce fits step
    obtain ⟨last, final, accesses, ends, allocated, continues⟩ := after.finishes
    exact ⟨last, final, .head ⟨inside, step⟩ accesses, ends, Nat.le_succ_of_le allocated,
      (produces.continues rfl).trans continues⟩

theorem Solo.finishes_loadSlot {prevSize : Nat} {tempTail : Address} {isLastBuffer : Bool}
    (fits : view.Fits)
    (solo : Solo memory (.loadSlot data location prevSize tempTail isLastBuffer) .idle view) :
    Finishes memory (.loadSlot data location prevSize tempTail isLastBuffer) view data
      (memory.allocated + 1) := by
  obtain ⟨owned, located⟩ : view.Owned data location ∧
    view.Located location prevSize tempTail isLastBuffer := solo.sound.producers ()
  have step : stepProducer memory (.loadSlot data location prevSize tempTail isLastBuffer) =
      some (memory, .publish data location prevSize tempTail isLastBuffer) := by
    rw [stepProducer, (solo.sound.located_slot located).2, if_pos owned.1]
  obtain ⟨after, _⟩ := solo.produce fits step
  exact (after.finishes_publish fits).access (solo.located_inside owned located) step
    (.refl view)

/-- The loops that select the buffer end with the slot of the location. -/
def Selects (memory : Memory Value) (pc : ProducerPc Value) (view : View Value) (data : Value)
    (location : Nat) : Prop :=
  ∃ isLastBuffer, Relation.ReflTransGen EnqueueAccess (memory, pc)
      (memory, .loadSlot data location (bufferSize * (location / bufferSize))
        (view.buffer (location / bufferSize)) isLastBuffer) ∧
    Solo memory (.loadSlot data location (bufferSize * (location / bufferSize))
      (view.buffer (location / bufferSize)) isLastBuffer) .idle view

theorem Selects.access {pc nextPc : ProducerPc Value}
    (rest : Selects memory nextPc view data location) (inside : pc.Inside memory)
    (step : stepProducer memory pc = some (memory, nextPc)) :
    Selects memory pc view data location := by
  obtain ⟨isLastBuffer, accesses, solo⟩ := rest
  exact ⟨isLastBuffer, .head ⟨inside, step⟩ accesses, solo⟩

/-- The walk back ends at the buffer of the location. -/
theorem Solo.selects_walk {index : Nat} {isLastBuffer : Bool} (fits : view.Fits)
    (bound : index ≤ view.tailIndex)
    (solo : Solo memory (.walk data location (view.buffer index) isLastBuffer) .idle view) :
    Selects memory (.walk data location (view.buffer index) isLastBuffer) view data location := by
  induction index using Nat.strongRecOn generalizing isLastBuffer with
  | ind index inductionHypothesis =>
    obtain ⟨owned, other, reachable, same, reached, _⟩ : view.Owned data location ∧
        ∃ other ≤ view.tailIndex, view.buffer index = view.buffer other ∧
          location / bufferSize ≤ other ∧
          (isLastBuffer = false → location / bufferSize + 1 < view.length) :=
      solo.sound.producers ()
    have tailBound := solo.wellFormed.tail_lt
    obtain rfl := solo.represents.buffer_injective (bound.trans_lt tailBound)
      (reachable.trans_lt tailBound) same
    have size := (solo.numberOfElements_eq fits bound).2
    by_cases before : location < bufferSize * index
    · obtain ⟨lower, less, prev, _⟩ := solo.walk_back bound owned.1 before
      have step : stepProducer memory (.walk data location (view.buffer index) isLastBuffer) =
          some (memory, .walk data location (view.buffer lower) false) := by
        simp only [stepProducer, size, if_pos before, prev]
      obtain ⟨after, _⟩ := solo.produce fits step
      exact (inductionHypothesis lower less (less.le.trans bound) after).access trivial step
    · have here : location / bufferSize = index := by
        simp only [bufferSize] at before reached ⊢
        omega
      subst here
      have step : stepProducer memory
          (.walk data location (view.buffer (location / bufferSize)) isLastBuffer) =
          some (memory, .loadSlot data location (bufferSize * (location / bufferSize))
            (view.buffer (location / bufferSize)) isLastBuffer) := by
        rw [stepProducer, size, if_neg before]
      obtain ⟨after, _⟩ := solo.produce fits step
      exact ⟨isLastBuffer, .single ⟨trivial, step⟩, after⟩

/-- The tail points to the last buffer, which has room for the last location claimed. -/
theorem Solo.tail_reaches {producer : ProducerPc Value}
    (solo : Solo memory producer consumer view) (linking : producer.linking = none)
    (preallocating : producer.preallocating = none)
    (latest : ∀ other, producer.location = some other → other + 1 = view.claims) :
    view.tailIndex + 1 = view.length ∧ view.claims ≤ trigger view.tailIndex + 1 ∧
      (producer.location = none → view.claims ≤ trigger view.tailIndex) := by
  have bound := solo.wellFormed.tail_lt
  have length := solo.wellFormed.length_le
  obtain ⟨empty, lagging, filled⟩ := solo.attended
  have notLagging : view.tailIndex + 2 ≠ view.length := by
    intro lags
    obtain ⟨_, here⟩ := lagging lags
    exact absurd (linking.symm.trans here) nofun
  have last : view.tailIndex + 1 = view.length := by omega
  have unfilled : view.slot (trigger view.tailIndex) = .EMPTY := by
    by_contra written
    rcases filled view.tailIndex bound written with more | ⟨_, here⟩
    · omega
    · exact absurd (preallocating.symm.trans here) nofun
  refine ⟨last, Nat.not_lt.mp fun claimed => ?_, fun nowhere => Nat.not_lt.mp fun claimed => ?_⟩
  · obtain ⟨_, here⟩ := empty _ (Nat.lt_of_succ_lt claimed) unfilled
    have same := latest _ here
    omega
  · obtain ⟨_, here⟩ := empty _ claimed unfilled
    exact absurd (nowhere.symm.trans here) nofun

/-- The loops are left at once: the last location claimed lies before the end of the tail's
buffer. -/
theorem Solo.selects_loadTail (fits : view.Fits) (latest : location + 1 = view.claims)
    (solo : Solo memory (.loadTail data location) .idle view) :
    Selects memory (.loadTail data location) view data location := by
  have tail := solo.represents.tailOfQueue
  have step : stepProducer memory (.loadTail data location) =
      some (memory, .compare data location (view.buffer view.tailIndex)) := by
    rw [stepProducer, ← tail]
  obtain ⟨compares, _⟩ := solo.produce fits step
  have reaches := (solo.tail_reaches rfl rfl fun other here =>
    (Option.some_inj.mp here) ▸ latest).2.1
  have before : ¬bufferSize * (view.tailIndex + 1) ≤ location := by
    simp only [trigger, bufferSize] at reaches ⊢
    omega
  have compare : stepProducer memory (.compare data location (view.buffer view.tailIndex)) =
      some (memory, .walk data location (view.buffer view.tailIndex) true) := by
    have size := (solo.numberOfElements_eq fits le_rfl).1
    rw [stepProducer, size, if_neg before]
  obtain ⟨walks, _⟩ := compares.produce fits compare
  have selected : Selects memory (.compare data location (view.buffer view.tailIndex)) view data
      location := (walks.selects_walk fits le_rfl).access trivial compare
  exact selected.access trivial step

/-- A call of enqueue that runs alone puts the value behind the others, in the slot of the
location it claims, and appends at most one buffer. -/
theorem Solo.enqueue (solo : Solo memory .idle .idle view) (early : view.Early) (data : Value) :
    ∃ claimed last final, EnqueueAccess (memory, .claim data)
        (claimed, .loadTail data view.claims) ∧ claimed.allocated = memory.allocated ∧
      Selects claimed (.loadTail data view.claims) (view.claim data) data view.claims ∧
      Enqueues memory data last ∧ Solo last .idle .idle final ∧
      last.allocated ≤ memory.allocated + 1 ∧ (view.claim data).Continues final := by
  have fits := early.fits solo.wellFormed
  have calls : Solo memory (.claim data) .idle view := solo.turn_producer trivial rfl rfl rfl
  have step : stepProducer memory (.claim data) =
      some ({ memory with tail := wrap (memory.tail + 1) }, .loadTail data view.claims) := by
    rw [stepProducer, ← solo.represents.tail]
  obtain ⟨after, produces⟩ := calls.produce fits step
  have claims : (view.claim data).claims = view.claims + 1 := List.length_append
  have stillFits : (view.claim data).Fits := by
    rw [View.Fits, claims]
    refine ⟨?_, fits.2⟩
    simp only [View.Early] at early
    omega
  have selects := Solo.selects_loadTail stillFits claims.symm after
  obtain ⟨isLastBuffer, accesses, located⟩ := selects
  obtain ⟨last, final, rest, returns, allocated, continues⟩ :=
    located.finishes_loadSlot stillFits
  exact ⟨_, last, final, ⟨trivial, step⟩, rfl, ⟨isLastBuffer, accesses, located⟩,
    .head ⟨trivial, step⟩ (accesses.trans rest), returns.turn_producer trivial rfl rfl rfl,
    allocated, continues⟩

end Enqueue

/-! ### A call of dequeue -/

section Dequeue

variable {caller : Caller Value} {answer : Option Value} {front : Nat}

/-- The rest of a call of dequeue returns an answer, with the head at this location. -/
def Answers (memory : Memory Value) (pc : ConsumerPc Value) (view : View Value)
    (answer : Option Value) (front : Nat) : Prop :=
  ∃ last final, Relation.ReflTransGen DequeueAccess (memory, pc) (last, .returning answer) ∧
    Solo last .idle (.returning answer) final ∧ view.Consumes final ∧ final.front = front

theorem Answers.after {next : Memory Value} {pc nextPc : ConsumerPc Value} {grown : View Value}
    (rest : Answers next nextPc grown answer front)
    (accesses : Relation.ReflTransGen DequeueAccess (memory, pc) (next, nextPc))
    (consumes : view.Consumes grown) : Answers memory pc view answer front := by
  obtain ⟨last, final, more, solo, further, reached⟩ := rest
  exact ⟨last, final, accesses.trans more, solo, consumes.trans further, reached⟩

/-- An access that only reads. -/
theorem Answers.read {pc nextPc : ConsumerPc Value} (rest : Answers memory nextPc view answer front)
    (inside : pc.Inside memory) (step : stepConsumer memory pc = some (memory, nextPc)) :
    Answers memory pc view answer front :=
  rest.after (.single ⟨inside, step⟩) (.refl view)

theorem Solo.answers (solo : Solo memory .idle (.returning answer) view) :
    Answers memory (.returning answer) view answer view.front :=
  ⟨memory, view, .refl, solo, .refl view, rfl⟩

/-- The buffer behind the head buffer is the next one appended. -/
theorem Solo.next_of_head {consumer : ConsumerPc Value}
    (solo : Solo memory .idle consumer view) (notLast : view.headIndex < view.tailIndex) :
    memory.next memory.headOfQueue = some (view.buffer (view.headIndex + 1)) ∧
      ∃ behind, view.live = view.headIndex :: (view.headIndex + 1) :: behind := by
  have represents := solo.represents
  have wellFormed := solo.wellFormed
  have tailBound := wellFormed.tail_lt
  obtain ⟨other, behind, whole, next⟩ := represents.next_of_head wellFormed notLast
  have linked := solo.links view.headIndex (by omega)
  rw [← represents.headOfQueue] at linked
  have same := Option.some_inj.mp (next.symm.trans linked)
  have member : other ∈ view.live := by
    rw [whole]
    exact List.mem_cons_of_mem _ List.mem_cons_self
  obtain rfl := represents.buffer_injective (wellFormed.live_lt other member) (by omega) same
  exact ⟨linked, behind, whole⟩

/-- The head moves from a buffer that has been emptied to the next one. -/
theorem Solo.moves (solo : Solo memory .idle (.moveTail caller) view) : ∃ next grown,
    Relation.ReflTransGen DequeueAccess (memory, .moveTail caller)
      (next, resume next caller true) ∧ Solo next .idle (resume next caller true) grown ∧
      view.Consumes grown ∧ grown.front = view.front ∧ grown.head < bufferSize := by
  obtain ⟨same, full⟩ : view.back = view.live ∧ view.head = bufferSize := solo.sound.consumer
  have represents := solo.represents
  have wellFormed := solo.wellFormed
  have headBound := wellFormed.live_lt _ wellFormed.head_mem
  have reached := solo.front_le
  have behindTail := wellFormed.head_le_tail
  have room := (solo.tail_reaches rfl rfl nofun).2.2 rfl
  have notLast : view.headIndex < view.tailIndex := by
    simp only [View.front, full, trigger, bufferSize] at reached room
    omega
  obtain ⟨linked, behind, whole⟩ := solo.next_of_head notLast
  have apart : memory.headOfQueue ≠ memory.tailOfQueue := by
    intro equal
    rw [represents.headOfQueue, represents.tailOfQueue_eq_iff wellFormed headBound] at equal
    exact absurd equal (Nat.ne_of_lt notLast)
  have moveTail : stepConsumer memory (.moveTail caller) = some (memory, .moveNext caller) := by
    rw [stepConsumer, if_neg apart]
  have movesNext := solo.read moveTail rfl
  have moveNext : stepConsumer memory (.moveNext caller) =
      some (memory, .collect caller (view.buffer (view.headIndex + 1))) := by
    rw [stepConsumer, linked]
  have collects := movesNext.read moveNext rfl
  have collect : stepConsumer memory (.collect caller (view.buffer (view.headIndex + 1))) =
      some (memory.deleteHead (view.buffer (view.headIndex + 1)),
        resume (memory.deleteHead (view.buffer (view.headIndex + 1))) caller true) := by
    rw [stepConsumer, solo.noGarbage]
  have nextBound : view.headIndex + 1 < view.length := by
    have tailBound := wellFormed.tail_lt
    omega
  have observed : view.observeConsumer memory
      (.collect caller (view.buffer (view.headIndex + 1))) =
        view.moveHead (view.headIndex + 1) := by
    simp only [View.observeConsumer, solo.noGarbage]
    exact congrArg view.moveHead (solo.sound.indexOf_eq nextBound)
  have moved := collects.consume collect observed solo.unhandled solo.noGarbage solo.unfreed
    (by
      intro index above bound
      refine (Function.update_of_ne ?_ ..).trans
        (solo.undeleted index (Nat.le_of_succ_le above) bound)
      rw [represents.headOfQueue]
      intro equal
      have sameIndex := represents.buffer_injective bound headBound equal
      exact Nat.not_succ_le_self view.headIndex (sameIndex ▸ above))
    (by
      intro address above
      refine (Function.update_of_ne ?_ ..).trans (solo.unallocated address above)
      rintro rfl
      rw [represents.headOfQueue] at above
      exact absurd (represents.address _ headBound) (Nat.not_lt.mpr above))
    solo.links
  refine ⟨_, _, ?_, moved, ⟨rfl, rfl, rfl, rfl, rfl, fun _ => Iff.rfl⟩, ?_,
    (by decide : 0 < bufferSize)⟩
  · exact .head ⟨trivial, moveTail⟩ (.head ⟨trivial, moveNext⟩ (.single ⟨trivial, collect⟩))
  · rw [View.front, View.front, full]
    exact Nat.mul_succ bufferSize view.headIndex

theorem Solo.front_slot {consumer : ConsumerPc Value} (solo : Solo memory .idle consumer view)
    (inside : view.head < bufferSize) :
    memory.isSet memory.headOfQueue (memory.head memory.headOfQueue) = view.slot view.front :=
  solo.represents.front_slot solo.wellFormed inside

/-- The slot at the head is there. -/
theorem Solo.front_inside {consumer : ConsumerPc Value} (solo : Solo memory .idle consumer view)
    (inside : view.head < bufferSize) :
    memory.HasSlot memory.headOfQueue (memory.head memory.headOfQueue) := by
  have wellFormed := solo.wellFormed
  rw [solo.represents.head_eq, solo.represents.headOfQueue]
  exact solo.hasSlot le_rfl (wellFormed.live_lt _ wellFormed.head_mem) inside

/-- The value at the head is taken. -/
theorem Solo.answers_readSet (solo : Solo memory .idle .readSet view)
    (set : view.slot view.front = .SET) :
    Answers memory .readSet view view.channel.claimed[view.front]? (view.front + 1) := by
  obtain ⟨same, inside, _⟩ : view.back = view.live ∧ view.head < bufferSize ∧
    view.slot view.front ≠ .HANDLED := solo.sound.consumer
  have represents := solo.represents
  have wellFormed := solo.wellFormed
  have headBound := wellFormed.live_lt _ wellFormed.head_mem
  have slot := solo.front_slot inside
  have value := represents.data view.headIndex headBound view.head inside
    (fun empty => SlotState.noConfusion (set.symm.trans empty))
  have taken : view.channel.claimed[view.front]? =
      some (memory.data memory.headOfQueue (memory.head memory.headOfQueue)) := by
    rw [represents.head_eq, represents.headOfQueue]
    exact value
  have step : stepConsumer memory .readSet = some (memory.advanceHead,
      moveToNextBuffer memory.advanceHead
        (.taken (memory.data memory.headOfQueue (memory.head memory.headOfQueue)))) := by
    rw [stepConsumer, slot, if_pos set]
  have observed : view.observeConsumer memory .readSet = view.take := by
    simp only [View.observeConsumer, slot, if_pos set]
  have takes := solo.consume step observed solo.unhandled solo.noGarbage solo.unfreed
    solo.undeleted solo.unallocated solo.links
  rw [taken]
  have consumes : view.Consumes view.take := ⟨rfl, rfl, rfl, rfl, rfl, fun _ => Iff.rfl⟩
  refine Answers.after ?_ (.single ⟨solo.front_inside inside, step⟩) consumes
  rw [moveToNextBuffer] at takes ⊢
  split_ifs at takes ⊢ with full
  · obtain ⟨next, grown, accesses, returns, moves, front, _⟩ := takes.moves
    have rest := returns.answers
    rw [front] at rest
    exact rest.after accesses moves
  · exact takes.answers

/-- A scan that runs over empty slots only finds no value. -/
theorem Solo.answers_scan
    (nothing : ∀ location, view.front ≤ location → view.slot location = .EMPTY)
    {index offset : Nat} {moved allHandled : Bool} (bound : index < view.length)
    (solo : Solo memory .idle (.scan (view.buffer index) offset moved allHandled) view) :
    Answers memory (.scan (view.buffer index) offset moved allHandled) view none view.front := by
  induction remaining : bufferSize * view.length - (bufferSize * index + offset)
    using Nat.strongRecOn generalizing index offset moved allHandled with
  | ind remaining inductionHypothesis =>
    subst remaining
    obtain ⟨_, inside, other, scanning⟩ : view.back = view.live ∧ view.head < bufferSize ∧
      ∃ other, view.Scanning (view.buffer index) offset moved allHandled other :=
        solo.sound.consumer
    obtain rfl := solo.represents.buffer_injective bound
      (solo.wellFormed.live_lt other scanning.member) scanning.address
    have above := solo.wellFormed.head_le_of_mem scanning.member
    have within := scanning.inside
    have hasSlot := solo.hasSlot above bound within
    have empty : memory.isSet (view.buffer index) offset = .EMPTY := by
      rw [solo.represents.slot index bound offset within, nothing _ scanning.behind]
    have scan : stepConsumer memory (.scan (view.buffer index) offset moved allHandled) =
        some (memory, .scanFlag (view.buffer index) offset moved allHandled) := by
      simp only [stepConsumer, empty, reduceCtorEq, if_false]
    have flags := solo.read scan rfl
    refine Answers.read ?_ hasSlot scan
    by_cases ended : bufferSize ≤ offset + 1
    · have scanFlag : stepConsumer memory (.scanFlag (view.buffer index) offset moved allHandled) =
          some (memory, .scanNext (view.buffer index)) := by
        simp [stepConsumer, empty, ended]
      have nexts := flags.read scanFlag rfl
      refine Answers.read ?_ hasSlot scanFlag
      by_cases last : index + 1 = view.length
      · have next : memory.next (view.buffer index) = none := by
          rw [show index = view.length - 1 by omega, solo.represents.last]
        have scanNext : stepConsumer memory (.scanNext (view.buffer index)) =
            some (memory, .returning none) := by
          simp only [stepConsumer, next]
        exact (nexts.read scanNext rfl).answers.read trivial scanNext
      · have more : index + 1 < view.length := by omega
        have scanNext : stepConsumer memory (.scanNext (view.buffer index)) =
            some (memory, .scan (view.buffer (index + 1)) 0 true true) := by
          simp only [stepConsumer, solo.links index more,
            solo.represents.heads (index + 1) (Nat.lt_succ_of_le above) more]
        refine Answers.read ?_ trivial scanNext
        refine inductionHypothesis _ ?_ more (nexts.read scanNext rfl) rfl
        simp only [bufferSize] at within ⊢
        omega
    · have scanFlag : stepConsumer memory (.scanFlag (view.buffer index) offset moved allHandled) =
          some (memory, .scan (view.buffer index) (offset + 1) moved false) := by
        simp [stepConsumer, empty, ended]
      refine Answers.read ?_ hasSlot scanFlag
      refine inductionHypothesis _ ?_ bound (flags.read scanFlag rfl) rfl
      simp only [bufferSize] at within ⊢
      omega

/-- Without an enqueue in progress the slots claimed are those that are set. -/
theorem Solo.slot_eq {consumer : ConsumerPc Value} (solo : Solo memory .idle consumer view)
    (location : Nat) :
    view.slot location = if location < view.claims then .SET else .EMPTY := by
  split_ifs with claimed
  · cases slot : view.slot location with
    | EMPTY =>
      obtain ⟨_, here⟩ := solo.attended.empty location claimed slot
      exact absurd here nofun
    | SET => rfl
    | HANDLED => exact absurd slot (solo.unhandled location)
  · by_contra filled
    exact claimed (solo.wellFormed.claimed filled)

theorem Solo.answers_compareBuffer_value (inside : view.head < bufferSize)
    (waiting : view.front < view.claims) (solo : Solo memory .idle .compareBuffer view) :
    Answers memory .compareBuffer view view.channel.claimed[view.front]? (view.front + 1) := by
  have set : view.slot view.front = .SET := by rw [solo.slot_eq, if_pos waiting]
  have headBound := solo.wellFormed.live_lt _ solo.wellFormed.head_mem
  by_cases last : memory.headOfQueue = memory.tailOfQueue
  · have compareBuffer : stepConsumer memory .compareBuffer = some (memory, .compareTail) := by
      rw [stepConsumer, if_pos last]
    have compares := solo.read compareBuffer rfl
    -- the values that are waiting lie in the tail's buffer, before its last slot but one
    have apart : memory.head memory.headOfQueue ≠ memory.tail % bufferSize := by
      rw [solo.represents.headOfQueue,
        solo.represents.tailOfQueue_eq_iff solo.wellFormed headBound] at last
      have room := (solo.tail_reaches rfl rfl fun _ => by rintro ⟨⟩).2.2 rfl
      rw [solo.represents.head_eq, solo.represents.tail]
      simp only [View.front, trigger, bufferSize] at waiting room inside ⊢
      omega
    have compareTail : stepConsumer memory .compareTail = some (memory, .readSet) := by
      rw [stepConsumer, if_neg apart]
    have taken := (compares.read compareTail rfl).answers_readSet set
    refine Answers.read ?_ trivial compareBuffer
    exact taken.read trivial compareTail
  · have compareBuffer : stepConsumer memory .compareBuffer = some (memory, .readSet) := by
      rw [stepConsumer, if_neg last]
    exact ((solo.read compareBuffer rfl).answers_readSet set).read trivial compareBuffer

theorem Solo.answers_readSet_nothing (inside : view.head < bufferSize)
    (nothing : view.claims ≤ view.front) (solo : Solo memory .idle .readSet view) :
    Answers memory .readSet view none view.front := by
  have empty (location : Nat) (behind : view.front ≤ location) : view.slot location = .EMPTY := by
    rw [solo.slot_eq, if_neg (Nat.not_lt.mpr (nothing.trans behind))]
  have slot := solo.front_slot inside
  rw [empty _ le_rfl] at slot
  have readSet : stepConsumer memory .readSet = some (memory, .readEmpty) := by
    simp only [stepConsumer, slot, reduceCtorEq, if_false]
  have unchanged : view.observeConsumer memory .readSet = view := by
    simp only [View.observeConsumer, slot, reduceCtorEq, if_false]
  have reads := solo.read readSet unchanged
  have readEmpty : stepConsumer memory .readEmpty =
      some (memory, .scan (view.buffer view.headIndex) view.head false true) := by
    rw [stepConsumer, if_pos slot, solo.represents.head_eq, solo.represents.headOfQueue]
  have scans := reads.read readEmpty rfl
  have headBound := solo.wellFormed.live_lt _ solo.wellFormed.head_mem
  have hasSlot := solo.front_inside inside
  have found := scans.answers_scan empty headBound
  have unread : Answers memory .readEmpty view none view.front := found.read hasSlot readEmpty
  exact unread.read hasSlot readSet

theorem Solo.answers_compareBuffer_nothing (inside : view.head < bufferSize)
    (nothing : view.claims ≤ view.front) (solo : Solo memory .idle .compareBuffer view) :
    Answers memory .compareBuffer view none view.front := by
  by_cases last : memory.headOfQueue = memory.tailOfQueue
  · have compareBuffer : stepConsumer memory .compareBuffer = some (memory, .compareTail) := by
      rw [stepConsumer, if_pos last]
    have compares := solo.read compareBuffer rfl
    refine Answers.read ?_ trivial compareBuffer
    by_cases equal : memory.head memory.headOfQueue = memory.tail % bufferSize
    · have compareTail : stepConsumer memory .compareTail = some (memory, .returning none) := by
        rw [stepConsumer, if_pos equal]
      exact (compares.read compareTail rfl).answers.read trivial compareTail
    · have compareTail : stepConsumer memory .compareTail = some (memory, .readSet) := by
        rw [stepConsumer, if_neg equal]
      exact ((compares.read compareTail rfl).answers_readSet_nothing inside nothing).read trivial
        compareTail
  · have compareBuffer : stepConsumer memory .compareBuffer = some (memory, .readSet) := by
      rw [stepConsumer, if_neg last]
    exact ((solo.read compareBuffer rfl).answers_readSet_nothing inside nothing).read trivial
      compareBuffer

/-- The answer is the first value that is there, and the head passes it. -/
theorem Solo.answers_readHandled (inside : view.head < bufferSize)
    (solo : Solo memory .idle .readHandled view) : ∃ front,
    Answers memory .readHandled view view.contents.head? front ∧
      view.channel.claimed.drop front = view.contents.tail := by
  have slot := solo.front_slot inside
  have unhandled := solo.unhandled view.front
  have readHandled : stepConsumer memory .readHandled = some (memory, .compareBuffer) := by
    rw [stepConsumer, slot, if_neg unhandled]
  have unchanged : view.observeConsumer memory .readHandled = view := by
    rw [View.observeConsumer, slot, if_neg unhandled]
  have compares := solo.read readHandled unchanged
  have hasSlot := solo.front_inside inside
  rw [View.contents, List.head?_drop, List.tail_drop]
  rcases Nat.lt_or_ge view.front view.claims with waiting | nothing
  · refine ⟨view.front + 1, ?_, rfl⟩
    exact (compares.answers_compareBuffer_value inside waiting).read hasSlot readHandled
  · refine ⟨view.front, ?_, ?_⟩
    · rw [List.getElem?_eq_none nothing]
      exact (compares.answers_compareBuffer_nothing inside nothing).read hasSlot readHandled
    · rw [List.drop_eq_nil_of_le nothing, List.drop_eq_nil_of_le (Nat.le_succ_of_le nothing)]

/-- A call of dequeue that runs alone answers with the first value that is there, and takes it
away. -/
theorem Solo.dequeue (solo : Solo memory .idle .idle view) : ∃ last final,
    Dequeues memory view.contents.head? last ∧ Solo last .idle .idle final ∧
      view.Consumes final ∧ final.contents = view.contents.tail := by
  have same : view.back = view.live := solo.sound.consumer
  have calls : Solo memory .idle (resume memory .check true) view := by
    refine solo.turn_consumer ?_
    rw [← moveToNextBuffer_check]
    exact holds_moveToNextBuffer solo.represents same solo.wellFormed .check
  have answers : ∃ front,
      Answers memory (resume memory .check true) view view.contents.head? front ∧
        view.channel.claimed.drop front = view.contents.tail := by
    rw [resume, solo.represents.head_eq] at calls ⊢
    split_ifs at calls ⊢ with full
    · obtain ⟨next, grown, accesses, reads, consumes, front, inside⟩ := calls.moves
      have contents : grown.contents = view.contents := by
        rw [View.contents, View.contents, consumes.claimed, front]
      rw [resume, reads.represents.head_eq, if_neg (Nat.not_le.mpr inside)] at accesses reads
      obtain ⟨front, rest, taken⟩ := reads.answers_readHandled inside
      rw [contents] at rest taken
      exact ⟨front, rest.after accesses consumes, consumes.claimed ▸ taken⟩
    · exact calls.answers_readHandled (Nat.not_le.mp full)
  obtain ⟨front, ⟨last, final, accesses, returns, consumes, reached⟩, taken⟩ := answers
  have returned : final.back = final.live := returns.sound.consumer
  refine ⟨last, final, accesses, returns.turn_consumer returned, consumes, ?_⟩
  rw [View.contents, consumes.claimed, reached, taken]

end Dequeue

/-! ### Calls one after another -/

theorem View.contents_append {final : View Value} {data : Value} (bound : view.front ≤ view.claims)
    (continues : (view.claim data).Continues final) : final.contents = view.contents ++ [data] := by
  rw [View.contents, continues.claimed, continues.front]
  exact List.drop_append_of_le_length bound

theorem View.claims_append {final : View Value} {data : Value}
    (continues : (view.claim data).Continues final) : final.claims = view.claims + 1 := by
  rw [View.claims, continues.claimed]
  exact List.length_append

/-- Calls made one after another find the queue to be a list, before the counter wraps. -/
theorem Solo.performs {calls : List (Call Value)} (solo : Solo memory .idle .idle view)
    (early : view.claims + (enqueued calls).length + 616 < 2 ^ 32) : ∃ last final,
    Performs memory calls (fifo view.contents calls) last ∧ Solo last .idle .idle final ∧
      final.claims = view.claims + (enqueued calls).length := by
  induction calls generalizing memory view with
  | nil => exact ⟨memory, view, .nil memory, solo, rfl⟩
  | cons call calls inductionHypothesis =>
    cases call with
    | enqueue data =>
      have length : (enqueued (.enqueue data :: calls)).length = (enqueued calls).length + 1 := rfl
      rw [length] at early ⊢
      have now : view.Early := by
        rw [View.Early]
        omega
      obtain ⟨_, next, grown, _, _, _, first, after, _, continues⟩ := solo.enqueue now data
      have claims := View.claims_append continues
      obtain ⟨last, final, rest, ends, total⟩ :=
        inductionHypothesis after (by rw [claims]; omega)
      rw [View.contents_append solo.front_le continues] at rest
      exact ⟨last, final, .enqueue first rest, ends, by rw [total, claims]; omega⟩
    | dequeue =>
      have length : (enqueued (.dequeue :: calls)).length = (enqueued calls).length := rfl
      rw [length] at early ⊢
      obtain ⟨next, taken, first, after, consumes, contents⟩ := solo.dequeue
      have claims : taken.claims = view.claims := by rw [View.claims, consumes.claimed, View.claims]
      obtain ⟨last, final, rest, ends, total⟩ := inductionHypothesis after (by rwa [claims])
      rw [contents] at rest
      exact ⟨last, final, .dequeue first rest, ends, by rw [total, claims]⟩

/-- In sequential use with fewer than `2^32 - 2 * bufferSize` enqueues every call returns, without
an access outside the buffers, and dequeue answers with the first value of the list of those
enqueued and not yet dequeued, or with nothing where that list is empty. -/
theorem sequential_use_is_fifo [Inhabited Value] {calls : List (Call Value)}
    (few : (enqueued calls).length < 2 ^ 32 - 2 * bufferSize) :
    (∃ last, Performs .construct calls (fifo [] calls) last) ∧
      ∀ answers last, Performs .construct calls answers last → answers = fifo [] calls := by
  have early : (View.initial : View Value).claims + (enqueued calls).length + 616 < 2 ^ 32 := by
    change 0 + (enqueued calls).length + 616 < 2 ^ 32
    simp only [bufferSize] at few
    omega
  obtain ⟨last, _, performs, _⟩ := Solo.start.performs early
  exact ⟨⟨last, performs⟩, fun answers other also => (also.unique performs).1⟩

/-! ### Across the end of a buffer -/

theorem fifo_enqueues (contents values : List Value) (calls : List (Call Value)) :
    fifo contents (values.map .enqueue ++ calls) = fifo (contents ++ values) calls := by
  induction values generalizing contents with
  | nil => rw [List.append_nil, List.map_nil, List.nil_append]
  | cons data values inductionHypothesis =>
    rw [List.map_cons, List.cons_append, fifo, inductionHypothesis, List.append_assoc]
    rfl

theorem fifo_dequeues (values : List Value) (calls : List (Call Value)) :
    fifo values (List.replicate values.length Call.dequeue ++ calls) =
      values.map some ++ fifo [] calls := by
  induction values with
  | nil => rfl
  | cons data values inductionHypothesis =>
    rw [List.length_cons, List.replicate_succ, List.cons_append, fifo, List.tail_cons,
      inductionHypothesis]
    rfl

/-- Values are enqueued, and then dequeued until nothing is left. -/
def inAndOut (values : List Value) : List (Call Value) :=
  values.map .enqueue ++ (List.replicate values.length Call.dequeue ++ [Call.dequeue])

theorem fifo_inAndOut (values : List Value) :
    fifo [] (inAndOut values) = values.map some ++ [none] := by
  rw [inAndOut, fifo_enqueues, List.nil_append, fifo_dequeues]
  rfl

theorem enqueued_inAndOut (values : List Value) : enqueued (inAndOut values) = values := by
  simp [enqueued, inAndOut, List.filterMap_map]

/-- Two more values than a buffer has slots come out in their order. -/
theorem sequential_use_is_fifo_sample :
    (∃ last, Performs (.construct : Memory Nat) (inAndOut (List.range (bufferSize + 2)))
      ((List.range (bufferSize + 2)).map some ++ [none]) last) ∧
      ∀ answers last, Performs (.construct : Memory Nat) (inAndOut (List.range (bufferSize + 2)))
        answers last → answers = (List.range (bufferSize + 2)).map some ++ [none] := by
  rw [← fifo_inAndOut]
  refine sequential_use_is_fifo ?_
  rw [enqueued_inAndOut, List.length_range]
  decide

end MarketSandbox.MPSCQueue
