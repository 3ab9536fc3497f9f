/-
This file follows the one producer through its accesses. Between two calls of
enqueue the tail pointer stands at the last buffer; a call claims the next
location, appends buffers as long as the last one seems to end before it, walks
back at most one buffer, and fills the slot behind all those filled before.
-/

import MarketSandbox.Queue.Transcript

namespace MarketSandbox.MPSCQueue

variable {Value : Type} {memory next : Memory Value} {transcript : Transcript Value}
  {entries : List (Nat × Value)}

/-- The value that a call of enqueue has still to publish. -/
def ProducerPc.pending : ProducerPc Value → List Value
  | .claim data | .loadTail data _ | .compare data _ _ | .loadNext data _ _
  | .exchangeNext data _ _ | .exchangeTail data _ _ _ | .walk data _ _ _
  | .loadSlot data _ _ _ _ | .publish data _ _ _ _ => [data]
  | .idle | .preallocateNext _ _ | .preallocateTail _ _ _ | .returning _ => []

theorem pending_length_le (pc : ProducerPc Value) : pc.pending.length ≤ 1 := by
  cases pc <;> simp [ProducerPc.pending]

/-- The tail pointer stands at the last buffer. -/
structure Settled (memory : Memory Value) (entries : List (Nat × Value)) (claims : Nat) :
    Prop where
  tail : memory.tail = claims
  last : memory.tailOfQueue + 1 = memory.allocated
  room : Room entries memory.tailOfQueue

/-- A buffer has been linked to the one at which the tail pointer stands. -/
structure Linked (memory : Memory Value) (entries : List (Nat × Value)) (claims : Nat)
    (tempTail newBuffer : Address) : Prop where
  tail : memory.tail = claims
  tailOfQueue : memory.tailOfQueue = tempTail
  behind : newBuffer = tempTail + 1
  last : newBuffer + 1 = memory.allocated
  room : Room entries newBuffer

/-- A location below the end of the last buffer lies in that buffer, or it is the last slot of the
one before. -/
structure Walks (location last tempTail : Nat) (isLastBuffer : Bool) : Prop where
  beyond : location < wrap (bufferSize * (last + 1))
  place : (tempTail = last ∧ isLastBuffer = true) ∨
    (tempTail + 1 = last ∧ isLastBuffer = false ∧ location < gap ∧
      location + 1 = bufferSize * last)

/-- Where the producer stands. -/
def Placing (memory : Memory Value) (entries : List (Nat × Value)) : ProducerPc Value → Prop
  | .idle | .claim _ | .returning _ => Settled memory entries entries.length
  | .loadTail _ location =>
    location = entries.length ∧ Settled memory entries (location + 1)
  | .compare _ location tempTail =>
    location = entries.length ∧ Settled memory entries (location + 1) ∧
      tempTail = memory.tailOfQueue
  | .loadNext _ location tempTail | .exchangeNext _ location tempTail =>
    location = entries.length ∧ Settled memory entries (location + 1) ∧
      tempTail = memory.tailOfQueue ∧ gap ≤ location
  | .exchangeTail _ location tempTail newBuffer =>
    location = entries.length ∧ Linked memory entries (location + 1) tempTail newBuffer
  | .walk _ location tempTail isLastBuffer =>
    location = entries.length ∧ Settled memory entries (location + 1) ∧
      Walks location memory.tailOfQueue tempTail isLastBuffer
  | .loadSlot _ location prevSize tempTail isLastBuffer
  | .publish _ location prevSize tempTail isLastBuffer =>
    location = entries.length ∧ Settled memory entries (location + 1) ∧
      Walks location memory.tailOfQueue tempTail isLastBuffer ∧
      prevSize = wrap (bufferSize * tempTail) ∧ prevSize ≤ location
  | .preallocateNext _ tempTail =>
    memory.tail = entries.length ∧ tempTail = memory.tailOfQueue ∧
      memory.tailOfQueue + 1 = memory.allocated ∧ Room entries (tempTail + 1)
  | .preallocateTail _ tempTail newBuffer =>
    Linked memory entries entries.length tempTail newBuffer

/-! ### The slot of a location -/

section Slot

variable {location last tempTail : Nat} {isLastBuffer : Bool}

/-- A buffer of this index does not wrap before the gap. -/
theorem Room.wrap_eq (room : Room entries last) (early : entries.length < gap) :
    wrap (bufferSize * last) = bufferSize * last := by
  have isLast := room.early early
  refine wrap_of_lt ?_
  simp only [gap_eq, bufferSize] at early isLast ⊢
  omega

/-- Where a location behind the gap lies below the end of a buffer, the buffer starts before it. -/
theorem wrap_start {buffer : Nat} (late : gap ≤ location)
    (beyond : location < wrap (bufferSize * (buffer + 1))) :
    wrap (bufferSize * buffer) + bufferSize = wrap (bufferSize * (buffer + 1)) := by
  rw [Nat.mul_succ] at beyond ⊢
  generalize bufferSize * buffer = start at beyond ⊢
  simp only [gap_eq, wrap, bufferSize] at late beyond ⊢
  omega

/-- A location before the start of the buffer is the last slot of the one before. -/
theorem Walks.before (room : Room entries last) (isNext : location = entries.length)
    (walks : Walks location last tempTail isLastBuffer)
    (before : location < wrap (bufferSize * tempTail)) :
    tempTail = last ∧ location < gap ∧ location + 1 = bufferSize * last := by
  subst isNext
  obtain ⟨beyond, ⟨rfl, _⟩ | ⟨rfl, _, early, final⟩⟩ := walks
  · rcases Nat.lt_or_ge entries.length gap with early | late
    · have isLast := room.early early
      rw [room.wrap_eq early] at before
      refine ⟨rfl, early, ?_⟩
      simp only [bufferSize] at isLast before ⊢
      omega
    · have start := wrap_start late beyond
      simp only [gap_eq, wrap, bufferSize] at late start before
      omega
  · have small : entries.length < bufferSize * tempTail := before.trans_le (Nat.mod_le ..)
    simp only [bufferSize] at final small
    omega

/-- The offset of a location in its buffer. -/
theorem Walks.offset_lt (room : Room entries last) (isNext : location = entries.length)
    (walks : Walks location last tempTail isLastBuffer)
    (reached : wrap (bufferSize * tempTail) ≤ location) :
    location - wrap (bufferSize * tempTail) < bufferSize := by
  subst isNext
  obtain ⟨beyond, ⟨rfl, _⟩ | ⟨rfl, _, early, final⟩⟩ := walks
  · rcases Nat.lt_or_ge entries.length gap with early | late
    · have isLast := room.early early
      rw [room.wrap_eq early] at reached ⊢
      simp only [bufferSize] at isLast reached ⊢
      omega
    · have start := wrap_start late beyond
      omega
  · have small : wrap (bufferSize * tempTail) = bufferSize * tempTail := by
      refine wrap_of_lt ?_
      simp only [gap_eq, bufferSize] at early final ⊢
      omega
    rw [small]
    simp only [bufferSize] at final ⊢
    omega

/-- Before the gap a location is its own slot. -/
theorem Walks.slot_early (room : Room entries last) (isNext : location = entries.length)
    (walks : Walks location last tempTail isLastBuffer)
    (reached : wrap (bufferSize * tempTail) ≤ location) (early : location < gap) :
    bufferSize * tempTail + (location - wrap (bufferSize * tempTail)) = location := by
  subst isNext
  have small : wrap (bufferSize * tempTail) = bufferSize * tempTail := by
    obtain ⟨beyond, ⟨rfl, _⟩ | ⟨rfl, _, _, final⟩⟩ := walks
    · exact room.wrap_eq early
    · refine wrap_of_lt ?_
      simp only [gap_eq, bufferSize] at early final ⊢
      omega
  rw [small] at reached ⊢
  exact Nat.add_sub_cancel' reached

/-- Behind the gap a location goes to a slot of the last buffer that is not its first one. -/
theorem Walks.slot_late (room : Room entries last) (isNext : location = entries.length)
    (walks : Walks location last tempTail isLastBuffer) (late : gap ≤ location) :
    tempTail = last ∧ isLastBuffer = true ∧ unwrapped ≤ bufferSize * last ∧
      0 < location - wrap (bufferSize * tempTail) := by
  obtain ⟨beyond, ⟨rfl, isLast⟩ | ⟨_, _, early, _⟩⟩ := walks
  · refine ⟨rfl, isLast, (room.late (isNext ▸ late)).1, ?_⟩
    have start := wrap_start late beyond
    simp only [gap_eq, wrap, bufferSize] at late start ⊢
    omega
  · exact absurd late (Nat.not_le.mpr early)

/-- The end of a buffer is at most `2 ^ 32 - 4`. -/
theorem Walks.few (walks : Walks location last tempTail isLastBuffer) :
    location + 4 < 2 ^ 32 := by
  have beyond := walks.beyond
  simp only [wrap, bufferSize] at beyond
  omega

theorem Walks.tempTail_le (walks : Walks location last tempTail isLastBuffer) :
    tempTail ≤ last := by
  obtain ⟨_, ⟨rfl, _⟩ | ⟨rfl, _⟩⟩ := walks
  · exact le_rfl
  · exact Nat.le_succ _

end Slot

/-! ### The accesses of enqueue -/

/-- What an access of the producer leaves: the memory holds the transcript, to which the value may
have been added, and the consumer's head has not moved. -/
structure Writes (memory next : Memory Value) (before after : Transcript Value)
    (pc pcAfter : ProducerPc Value) : Prop where
  sound : after.Sound
  holds : Holds next after
  placing : Placing next after.entries pcAfter
  headOfQueue : next.headOfQueue = memory.headOfQueue
  head : next.head next.headOfQueue = memory.head memory.headOfQueue
  allocated : memory.allocated ≤ next.allocated
  taken : after.taken = before.taken
  entries : before.entries <+: after.entries
  values : after.values ++ pcAfter.pending = before.values ++ pc.pending

section Access

variable {data : Value} {location tempTail newBuffer prevSize : Nat} {isLastBuffer : Bool}
  {pcAfter : ProducerPc Value}

/-- An access that changes none of the buffers. -/
theorem Writes.of_tail {pc : ProducerPc Value} {tail tailOfQueue : Nat}
    (sound : transcript.Sound) (holds : Holds memory transcript)
    (placing : Placing { memory with tail := tail, tailOfQueue := tailOfQueue } transcript.entries
      pcAfter)
    (pending : pcAfter.pending = pc.pending) :
    Writes memory { memory with tail := tail, tailOfQueue := tailOfQueue } transcript transcript
      pc pcAfter where
  sound := sound
  holds := { holds with }
  placing := placing
  headOfQueue := rfl
  head := rfl
  allocated := le_rfl
  taken := rfl
  entries := List.prefix_rfl
  values := by rw [pending]

/-- A buffer is appended. -/
theorem Writes.of_linkNext {pc : ProducerPc Value} (sound : transcript.Sound)
    (holds : Holds memory transcript) (last : tempTail + 1 = memory.allocated)
    (placing : Placing (memory.linkNext tempTail) transcript.entries pcAfter)
    (pending : pcAfter.pending = pc.pending) :
    Writes memory (memory.linkNext tempTail) transcript transcript pc pcAfter where
  sound := sound
  holds := holds.linkNext last
  placing := placing
  headOfQueue := rfl
  head := Function.update_of_ne holds.reached.ne ..
  allocated := Nat.le_succ _
  taken := rfl
  entries := List.prefix_rfl
  values := by rw [pending]

theorem writes_claim (sound : transcript.Sound) (holds : Holds memory transcript)
    (placing : Placing memory transcript.entries (.claim data)) :
    Writes memory { memory with tail := wrap (memory.tail + 1) } transcript transcript
      (.claim data) (.loadTail data memory.tail) := by
  obtain ⟨tail, last, room⟩ := placing
  have few := sound.few
  refine .of_tail sound holds ⟨tail, ?_, last, room⟩ rfl
  refine wrap_of_lt ?_
  omega

theorem writes_compare (sound : transcript.Sound) (holds : Holds memory transcript)
    (placing : Placing memory transcript.entries (.compare data location tempTail))
    (step : stepProducer memory (.compare data location tempTail) = some (next, pcAfter)) :
    Writes memory next transcript transcript (.compare data location tempTail) pcAfter := by
  obtain ⟨rfl, settled, rfl⟩ := placing
  have ends : numberOfElements (memory.positionInQueue memory.tailOfQueue) =
      wrap (bufferSize * (memory.tailOfQueue + 1)) := by
    rw [holds.position _ (settled.last ▸ Nat.lt_succ_self _), numberOfElements_wrap]
  rw [stepProducer, ends] at step
  split_ifs at step with ended
  · obtain ⟨rfl, rfl⟩ := Prod.mk.inj (Option.some.inj step)
    refine .of_tail sound holds ⟨rfl, settled, rfl, ?_⟩ rfl
    exact Nat.le_of_not_lt fun early =>
      absurd (settled.room.ends_beyond early) (Nat.not_lt.mpr ended)
  · obtain ⟨rfl, rfl⟩ := Prod.mk.inj (Option.some.inj step)
    exact .of_tail sound holds
      ⟨rfl, settled, Nat.lt_of_not_le ended, Or.inl ⟨rfl, rfl⟩⟩ rfl

theorem writes_loadNext (sound : transcript.Sound) (holds : Holds memory transcript)
    (placing : Placing memory transcript.entries (.loadNext data location tempTail))
    (step : stepProducer memory (.loadNext data location tempTail) = some (next, pcAfter)) :
    Writes memory next transcript transcript (.loadNext data location tempTail) pcAfter := by
  obtain ⟨rfl, settled, rfl, late⟩ := placing
  simp only [stepProducer, holds.last _ settled.last] at step
  obtain ⟨rfl, rfl⟩ := Prod.mk.inj (Option.some.inj step)
  exact .of_tail sound holds ⟨rfl, settled, rfl, late⟩ rfl

theorem writes_exchangeNext (sound : transcript.Sound) (holds : Holds memory transcript)
    (placing : Placing memory transcript.entries (.exchangeNext data location tempTail))
    (step : stepProducer memory (.exchangeNext data location tempTail) = some (next, pcAfter)) :
    Writes memory next transcript transcript (.exchangeNext data location tempTail) pcAfter := by
  obtain ⟨rfl, settled, rfl, late⟩ := placing
  simp only [stepProducer, holds.last _ settled.last] at step
  obtain ⟨rfl, rfl⟩ := Prod.mk.inj (Option.some.inj step)
  have bound := holds.bound
  rw [← settled.last] at bound
  refine .of_linkNext sound holds settled.last
    ⟨rfl, settled.tail, rfl, settled.last.symm, rfl, ?_⟩ rfl
  rw [← settled.last]
  exact settled.room.append late bound

/-- The tail pointer moves on to the buffer that has been linked. -/
theorem Linked.exchangeTail {claims : Nat}
    (linked : Linked memory entries claims tempTail newBuffer) :
    memory.exchangeTail tempTail newBuffer = { memory with tailOfQueue := newBuffer } ∧
      Settled { memory with tailOfQueue := newBuffer } entries claims :=
  ⟨if_pos linked.tailOfQueue, linked.tail, linked.last, linked.room⟩

theorem writes_exchangeTail (sound : transcript.Sound) (holds : Holds memory transcript)
    (placing : Placing memory transcript.entries
      (.exchangeTail data location tempTail newBuffer)) :
    Writes memory (memory.exchangeTail tempTail newBuffer) transcript transcript
      (.exchangeTail data location tempTail newBuffer) (.loadTail data location) := by
  obtain ⟨rfl, linked⟩ := placing
  obtain ⟨moved, settled⟩ := linked.exchangeTail
  rw [moved]
  exact .of_tail sound holds ⟨rfl, settled⟩ rfl

theorem writes_walk (sound : transcript.Sound) (holds : Holds memory transcript)
    (placing : Placing memory transcript.entries (.walk data location tempTail isLastBuffer))
    (step : stepProducer memory (.walk data location tempTail isLastBuffer) =
      some (next, pcAfter)) :
    Writes memory next transcript transcript (.walk data location tempTail isLastBuffer)
      pcAfter := by
  obtain ⟨rfl, settled, walks⟩ := placing
  have within : tempTail < memory.allocated :=
    walks.tempTail_le.trans_lt (settled.last ▸ Nat.lt_succ_self _)
  have starts : MPSCQueue.prevSize (memory.positionInQueue tempTail) =
      wrap (bufferSize * tempTail) := by
    rw [holds.position _ within, prevSize_wrap]
  rw [stepProducer, starts] at step
  split_ifs at step with before
  · obtain ⟨rfl, early, final⟩ := walks.before settled.room rfl before
    obtain ⟨buffer, isNext⟩ : ∃ buffer, memory.tailOfQueue = buffer + 1 := by
      refine Nat.exists_eq_succ_of_ne_zero fun first => ?_
      rw [first] at final
      cases final
    have back : memory.prev memory.tailOfQueue = some buffer := by
      rw [isNext]
      exact holds.prev buffer (isNext ▸ within)
    simp only [back] at step
    obtain ⟨rfl, rfl⟩ := Prod.mk.inj (Option.some.inj step)
    exact .of_tail sound holds
      ⟨rfl, settled, walks.beyond, Or.inr ⟨isNext.symm, rfl, early, final⟩⟩ rfl
  · obtain ⟨rfl, rfl⟩ := Prod.mk.inj (Option.some.inj step)
    exact .of_tail sound holds ⟨rfl, settled, walks, rfl, Nat.le_of_not_lt before⟩ rfl

/-- The slot of a location before the gap lies behind all slots filled. -/
theorem Transcript.Sound.below_early (sound : transcript.Sound)
    (early : transcript.entries.length ≤ gap) {entry : Nat × Value}
    (member : entry ∈ transcript.entries) : entry.1 < transcript.entries.length := by
  obtain ⟨index, isEntry⟩ := List.mem_iff_getElem?.mp member
  have bound := (List.getElem?_eq_some_iff.mp isEntry).1
  rw [sound.early index (bound.trans_le early) entry isEntry]
  exact bound

/-- The slot of a location lies behind all slots filled. -/
theorem Walks.below (sound : transcript.Sound) {last : Nat} (room : Room transcript.entries last)
    (isNext : location = transcript.entries.length)
    (walks : Walks location last tempTail isLastBuffer)
    (reached : wrap (bufferSize * tempTail) ≤ location) {entry : Nat × Value}
    (member : entry ∈ transcript.entries) :
    entry.1 < bufferSize * tempTail + (location - wrap (bufferSize * tempTail)) := by
  rcases Nat.lt_or_ge location gap with early | late
  · rw [walks.slot_early room isNext reached early, isNext]
    exact sound.below_early (isNext ▸ early.le) member
  · obtain ⟨rfl, _⟩ := walks.slot_late room isNext late
    rw [isNext]
    exact (room.late (isNext ▸ late)).2 entry member

theorem writes_loadSlot (sound : transcript.Sound) (holds : Holds memory transcript)
    (placing : Placing memory transcript.entries
      (.loadSlot data location prevSize tempTail isLastBuffer))
    (step : stepProducer memory (.loadSlot data location prevSize tempTail isLastBuffer) =
      some (next, pcAfter)) :
    Writes memory next transcript transcript
      (.loadSlot data location prevSize tempTail isLastBuffer) pcAfter := by
  obtain ⟨isNext, settled, walks, rfl, reached⟩ := placing
  have within : tempTail < memory.allocated :=
    walks.tempTail_le.trans_lt (settled.last ▸ Nat.lt_succ_self _)
  have empty := holds.empty tempTail _ within (walks.offset_lt settled.room isNext reached)
    fun entry member => (walks.below sound settled.room isNext reached member).ne
  rw [stepProducer, if_pos empty] at step
  obtain ⟨rfl, rfl⟩ := Prod.mk.inj (Option.some.inj step)
  exact .of_tail sound holds ⟨isNext, settled, walks, rfl, reached⟩ rfl

/-- A slot other than the last but one of the last buffer leaves the tail where it is. -/
theorem Room.publish {last : Nat} (room : Room entries last)
    (walks : Walks entries.length last tempTail isLastBuffer)
    (reached : wrap (bufferSize * tempTail) ≤ entries.length)
    (other : ¬(entries.length - wrap (bufferSize * tempTail) = bufferSize - 2 ∧
      isLastBuffer = true)) :
    Room (entries ++ [(bufferSize * tempTail +
      (entries.length - wrap (bufferSize * tempTail)), data)]) last := by
  have length : (entries ++ [(bufferSize * tempTail +
      (entries.length - wrap (bufferSize * tempTail)), data)]).length = entries.length + 1 :=
    List.length_append
  have offset := walks.offset_lt room rfl reached
  have keeps (early : entries.length < gap) : last = (entries.length + 2) / bufferSize := by
    have slot := walks.slot_early room rfl reached early
    have isLast := room.early early
    obtain ⟨_, ⟨rfl, isLastBuffer⟩ | ⟨rfl, _, _, final⟩⟩ := walks
    · have notTrigger : entries.length - wrap (bufferSize * tempTail) ≠ bufferSize - 2 :=
        fun trigger => other ⟨trigger, isLastBuffer⟩
      simp only [bufferSize] at slot isLast offset notTrigger ⊢
      omega
    · simp only [bufferSize] at final ⊢
      omega
  have late (behind : gap ≤ entries.length + 1) : gap ≤ entries.length := by
    refine Nat.le_of_not_lt fun early => ?_
    have isLast := keeps early
    have before := room.early early
    simp only [gap_eq, bufferSize] at behind early isLast before
    omega
  constructor
  · intro before
    rw [length] at before ⊢
    exact keeps (Nat.lt_of_succ_lt before)
  · intro behind
    rw [length] at behind ⊢
    obtain ⟨beyond, below⟩ := room.late (late behind)
    refine ⟨beyond, fun entry member => ?_⟩
    rcases List.mem_append.mp member with old | added
    · have := below entry old
      omega
    · obtain rfl := List.mem_singleton.mp added
      obtain ⟨rfl, _⟩ := walks.slot_late room rfl (late behind)
      simp only
      omega

/-- With the last slot but one of the last buffer filled, another buffer suits. -/
theorem Room.trigger {last : Nat} (room : Room entries last)
    (walks : Walks entries.length last last isLastBuffer)
    (reached : wrap (bufferSize * last) ≤ entries.length)
    (trigger : entries.length - wrap (bufferSize * last) = bufferSize - 2)
    (below : ∀ entry ∈ entries, entry.1 <
      bufferSize * last + (entries.length - wrap (bufferSize * last))) :
    Room (entries ++ [(bufferSize * last +
      (entries.length - wrap (bufferSize * last)), data)]) (last + 1) := by
  have length : (entries ++ [(bufferSize * last +
      (entries.length - wrap (bufferSize * last)), data)]).length = entries.length + 1 :=
    List.length_append
  constructor
  · intro before
    rw [length] at before ⊢
    have slot := walks.slot_early room rfl reached (Nat.lt_of_succ_lt before)
    simp only [bufferSize] at slot trigger ⊢
    omega
  · intro behind
    rw [length] at behind
    constructor
    · rcases Nat.lt_or_ge entries.length gap with early | late
      · have slot := walks.slot_early room rfl reached early
        simp only [gap_eq, unwrapped, bufferSize] at behind slot trigger ⊢
        omega
      · exact (room.late late).1.trans (Nat.mul_le_mul_left _ (Nat.le_succ _))
    · intro entry member
      refine Nat.lt_add_right _ ?_
      rw [Nat.mul_succ]
      rcases List.mem_append.mp member with old | added
      · have := below entry old
        simp only [bufferSize] at this trigger ⊢
        omega
      · obtain rfl := List.mem_singleton.mp added
        simp only [bufferSize] at trigger ⊢
        omega

theorem writes_publish (sound : transcript.Sound) (holds : Holds memory transcript)
    (placing : Placing memory transcript.entries
      (.publish data location prevSize tempTail isLastBuffer))
    (step : stepProducer memory (.publish data location prevSize tempTail isLastBuffer) =
      some (next, pcAfter)) :
    Writes memory next transcript
      (transcript.publish (bufferSize * tempTail + (location - prevSize)) data)
      (.publish data location prevSize tempTail isLastBuffer) pcAfter := by
  obtain ⟨rfl, settled, walks, rfl, reached⟩ := placing
  have room := settled.room
  have inside := walks.offset_lt room rfl reached
  have below (entry : Nat × Value) (member : entry ∈ transcript.entries) :=
    walks.below sound room rfl reached member
  have within : tempTail < memory.allocated :=
    walks.tempTail_le.trans_lt (settled.last ▸ Nat.lt_succ_self _)
  have published : (transcript.publish (bufferSize * tempTail +
      (transcript.entries.length - wrap (bufferSize * tempTail))) data).Sound := by
    refine sound.publish data walks.few below (walks.slot_early room rfl reached) fun late => ?_
    obtain ⟨rfl, _, beyond, notFirst⟩ := walks.slot_late room rfl late
    constructor
    · simp only [gap]
      omega
    · rw [Nat.mul_add_mod, Nat.mod_eq_of_lt inside]
      exact notFirst.ne'
  have length : (transcript.publish (bufferSize * tempTail +
      (transcript.entries.length - wrap (bufferSize * tempTail))) data).entries.length =
        transcript.entries.length + 1 := List.length_append
  have filled := holds.fillSlot data within inside sound.taken below
  have values : (transcript.publish (bufferSize * tempTail +
      (transcript.entries.length - wrap (bufferSize * tempTail))) data).values =
        transcript.values ++ [data] := Transcript.values_publish _ _
  rw [stepProducer] at step
  split_ifs at step with last
  · obtain ⟨rfl, rfl⟩ := Prod.mk.inj (Option.some.inj step)
    obtain ⟨trigger, isLast⟩ := last
    obtain rfl : tempTail = memory.tailOfQueue := by
      obtain ⟨_, ⟨same, _⟩ | ⟨_, notLast, _⟩⟩ := walks
      · exact same
      · rw [isLast] at notLast
        cases notLast
    exact {
      sound := published
      holds := filled
      placing := ⟨settled.tail.trans length.symm, rfl, settled.last,
        room.trigger walks reached trigger below⟩
      headOfQueue := rfl
      head := rfl
      allocated := le_rfl
      taken := rfl
      entries := List.prefix_append ..
      values := by rw [values]; exact List.append_nil _ }
  · obtain ⟨rfl, rfl⟩ := Prod.mk.inj (Option.some.inj step)
    exact {
      sound := published
      holds := filled
      placing := ⟨settled.tail.trans length.symm, settled.last, room.publish walks reached last⟩
      headOfQueue := rfl
      head := rfl
      allocated := le_rfl
      taken := rfl
      entries := List.prefix_append ..
      values := by rw [values]; exact List.append_nil _ }

theorem writes_preallocateNext (sound : transcript.Sound) (holds : Holds memory transcript)
    (placing : Placing memory transcript.entries (.preallocateNext data tempTail))
    (step : stepProducer memory (.preallocateNext data tempTail) = some (next, pcAfter)) :
    Writes memory next transcript transcript (.preallocateNext data tempTail) pcAfter := by
  obtain ⟨tail, rfl, last, room⟩ := placing
  simp only [stepProducer, holds.last _ last] at step
  obtain ⟨rfl, rfl⟩ := Prod.mk.inj (Option.some.inj step)
  exact .of_linkNext sound holds last ⟨tail, rfl, last.symm, rfl, last ▸ room⟩ rfl

theorem writes_preallocateTail (sound : transcript.Sound) (holds : Holds memory transcript)
    (placing : Placing memory transcript.entries (.preallocateTail data tempTail newBuffer)) :
    Writes memory (memory.exchangeTail tempTail newBuffer) transcript transcript
      (.preallocateTail data tempTail newBuffer) (.returning data) := by
  obtain ⟨moved, settled⟩ := Linked.exchangeTail placing
  rw [moved]
  exact .of_tail sound holds settled rfl

/-- Every access of the producer keeps the memory and the transcript together. -/
theorem writes_of_step {pc : ProducerPc Value} (sound : transcript.Sound)
    (holds : Holds memory transcript) (placing : Placing memory transcript.entries pc)
    (step : stepProducer memory pc = some (next, pcAfter)) :
    ∃ after, Writes memory next transcript after pc pcAfter := by
  cases pc with
  | idle | returning => cases step
  | claim data =>
    obtain ⟨rfl, rfl⟩ := Prod.mk.inj (Option.some.inj step)
    exact ⟨_, writes_claim sound holds placing⟩
  | loadTail data location =>
    obtain ⟨rfl, rfl⟩ := Prod.mk.inj (Option.some.inj step)
    obtain ⟨rfl, settled⟩ := placing
    exact ⟨_, .of_tail sound holds ⟨rfl, settled, rfl⟩ rfl⟩
  | compare => exact ⟨_, writes_compare sound holds placing step⟩
  | loadNext => exact ⟨_, writes_loadNext sound holds placing step⟩
  | exchangeNext => exact ⟨_, writes_exchangeNext sound holds placing step⟩
  | exchangeTail =>
    obtain ⟨rfl, rfl⟩ := Prod.mk.inj (Option.some.inj step)
    exact ⟨_, writes_exchangeTail sound holds placing⟩
  | walk => exact ⟨_, writes_walk sound holds placing step⟩
  | loadSlot => exact ⟨_, writes_loadSlot sound holds placing step⟩
  | publish => exact ⟨_, writes_publish sound holds placing step⟩
  | preallocateNext => exact ⟨_, writes_preallocateNext sound holds placing step⟩
  | preallocateTail =>
    obtain ⟨rfl, rfl⟩ := Prod.mk.inj (Option.some.inj step)
    exact ⟨_, writes_preallocateTail sound holds placing⟩

end Access

end MarketSandbox.MPSCQueue
