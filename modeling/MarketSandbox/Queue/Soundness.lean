/-
This file proves that in every run with few enough enqueues the memory holds the
view that the run leads to, the view is well formed, and every thread is where
it knows to be. There is one lemma for every step of a producer and of the
consumer that does something to the view.
-/

import MarketSandbox.Queue.Observation

namespace MarketSandbox.MPSCQueue

open Transition

variable {Producer Value : Type}

/-- The memory holds a well-formed view, and every thread knows where it stands. -/
structure Sound (state : State Producer Value) (view : View Value) : Prop where
  wellFormed : view.WellFormed
  represents : Represents state.memory view
  producers : ∀ producer, (state.producers producer).Holds view
  consumer : state.consumer.Holds view
  distinct : ∀ first second location, (state.producers first).location = some location →
    (state.producers second).location = some location → first = second

/-- The location counter does not wrap. -/
def View.Small (view : View Value) : Prop := view.claims + 2 * bufferSize < 2 ^ 32

/-- Neither the location counter nor the end of the tail's buffer wraps. -/
def View.Fits (view : View Value) : Prop :=
  view.claims + 1 < 2 ^ 32 ∧ bufferSize * (view.tailIndex + 1) < 2 ^ 32

/-- The end of the tail's buffer does not wrap. -/
def View.Room (view : View Value) : Prop := bufferSize * (view.tailIndex + 1) < 2 ^ 32

variable {state : State Producer Value} {view grown : View Value} {memory : Memory Value}

theorem View.Small.fits (small : view.Small) (wellFormed : view.WellFormed) : view.Fits := by
  have bounded := wellFormed.bounded
  have tailBound := wellFormed.tail_lt
  simp only [View.Small, View.Fits, bufferSize] at small bounded ⊢
  omega

/-! ### Steps of a producer -/

theorem ProducerPc.Holds.location_lt {pc : ProducerPc Value} (holds : pc.Holds view)
    {location : Nat} (here : pc.location = some location) : location < view.claims := by
  have owned {data : Value} {location : Nat} (owned : view.Owned data location) :
      location < view.claims := (List.getElem?_eq_some_iff.mp owned.2).1
  cases pc <;> cases here
  case loadTail => exact owned holds
  all_goals exact owned holds.1

section Producer

variable [DecidableEq Producer] {producer : Producer} {pc : ProducerPc Value}

/-- A producer's step keeps the machine sound where the other threads keep what they
know and the producer learns what it needs next. -/
theorem Sound.step_producer (sound : Sound state view) (wellFormed : grown.WellFormed)
    (represents : Represents memory grown) (produces : view.Produces grown)
    (holds : pc.Holds grown)
    (kept : ∀ location, (state.producers producer).location ≠ some location →
      location < view.claims → view.slot location = .EMPTY → grown.slot location = .EMPTY)
    (same : ∀ location, pc.location = some location →
      (state.producers producer).location = some location ∨ view.claims ≤ location) :
    Sound { state with
      memory := memory
      producers := Function.update state.producers producer pc } grown ∧
      view.Produces grown := by
  refine ⟨?_, produces⟩
  exact {
    wellFormed := wellFormed
    represents := represents
    producers other := by
      change (Function.update state.producers producer pc other).Holds grown
      by_cases acting : other = producer
      · subst acting
        rwa [Function.update_self]
      · rw [Function.update_of_ne acting]
        refine (sound.producers other).grow sound.wellFormed produces.toGrows ?_
        intro location here empty
        refine kept location (fun mine => acting ?_) ((sound.producers other).location_lt here)
          empty
        exact sound.distinct other producer location here mine
    consumer := sound.consumer.produce sound.wellFormed produces
    distinct first second location left right := by
      -- the locations before the step are those of other producers or of this one
      have before {other : Producer}
          (here : (Function.update state.producers producer pc other).location = some location) :
          (state.producers other).location = some location ∨
            other = producer ∧ view.claims ≤ location := by
        by_cases acting : other = producer
        · subst acting
          rw [Function.update_self] at here
          exact (same location here).imp_right fun fresh => ⟨rfl, fresh⟩
        · rw [Function.update_of_ne acting] at here
          exact Or.inl here
      have claimed {other : Producer}
          (here : (state.producers other).location = some location) : location < view.claims :=
        (sound.producers other).location_lt here
      rcases before left with firstHad | ⟨firstActs, fresh⟩
      · rcases before right with secondHad | ⟨_, fresh⟩
        · exact sound.distinct first second location firstHad secondHad
        · exact absurd (claimed firstHad) (Nat.not_lt.mpr fresh)
      · rcases before right with secondHad | ⟨secondActs, _⟩
        · exact absurd (claimed secondHad) (Nat.not_lt.mpr fresh)
        · rw [firstActs, secondActs] }

/-- A producer's step that changes neither the memory nor the view. -/
theorem Sound.read_producer (sound : Sound state view) (holds : pc.Holds view)
    (same : ∀ location, pc.location = some location →
      (state.producers producer).location = some location) :
    Sound { state with producers := Function.update state.producers producer pc } view ∧
      view.Produces view :=
  sound.step_producer sound.wellFormed sound.represents (.refl view) holds
    (fun _ _ _ empty => empty) fun location here => Or.inl (same location here)

variable (sound : Sound state view)
include sound

theorem Sound.claim {data : Value} (small : view.claims + 1 < 2 ^ 32) :
    Sound { state with
      memory := { state.memory with tail := wrap (state.memory.tail + 1) }
      producers := Function.update state.producers producer
        (.loadTail data state.memory.tail) } (view.claim data) ∧
      view.Produces (view.claim data) := by
  have tail := sound.represents.tail
  refine sound.step_producer (sound.wellFormed.claim data) (sound.represents.claim data small)
    (View.produces_claim data) ?_ (fun _ _ _ empty => empty) ?_
  · -- the slot at the tail has not been filled, as it had not been claimed
    refine ⟨?_, ?_⟩
    · by_contra filled
      exact absurd (sound.wellFormed.claimed filled) (tail ▸ lt_irrefl _)
    · rw [tail]
      exact List.getElem?_concat_length
  · intro location here
    obtain rfl := Option.some_inj.mp here
    exact Or.inr tail.ge

omit [DecidableEq Producer] in
/-- What a successful exchange of `next` does: it appends a buffer behind the last one, or
links one behind a buffer that the consumer does not reach any more. -/
theorem Sound.link_effect {tempTail : Address} (room : view.Room)
    (growable : view.Growable tempTail) (unlinked : state.memory.next tempTail = none) :
    (view.observeLink state.memory tempTail).WellFormed ∧
      Represents (state.memory.linkNext tempTail) (view.observeLink state.memory tempTail) ∧
      view.Produces (view.observeLink state.memory tempTail) ∧
      (view.observeLink state.memory tempTail).slot = view.slot ∧
      (view.observeLink state.memory tempTail).Linking tempTail state.memory.allocated := by
  obtain ⟨wellFormed, represents, _, _, _⟩ := sound
  obtain ⟨index, bound, rfl, needed⟩ := growable
  have tailBound := wellFormed.tail_lt
  have below := bound.trans_lt tailBound
  rw [View.observeLink]
  by_cases last : index + 1 = view.length
  · have final : view.length - 1 = index := by omega
    have lag : view.tailIndex + 1 = view.length := by omega
    rw [final, if_pos rfl]
    have length : view.length + 1 < 2 ^ 32 := by
      simp only [View.Room, bufferSize] at room
      omega
    refine ⟨wellFormed.append _ lag (last ▸ needed), represents.linkNext wellFormed last length,
      View.produces_append _ lag, rfl, Or.inl ⟨congrArg (· + 1) lag, ?_, ?_⟩⟩
    · rw [show (view.append state.memory.allocated).tailIndex = index from by
        change view.tailIndex = index
        omega]
      exact (Function.update_of_ne (Nat.ne_of_lt below) ..).symm
    · change _ = Function.update view.buffer view.length _ (view.tailIndex + 1)
      rw [lag, Function.update_self]
  · have outside : index ∉ view.live := by
      intro member
      obtain ⟨_, other, _, _, next⟩ := represents.next_of_live wellFormed member last
      rw [next] at unlinked
      exact Option.some_ne_none _ unlinked
    rw [if_neg]
    · refine ⟨wellFormed, represents.linkNext_foreign wellFormed below outside, .refl view, rfl,
        Or.inr ⟨index, lt_of_le_of_ne bound ?_, rfl⟩⟩
      rintro rfl
      exact outside wellFormed.tail_mem
    · intro same
      have equal := represents.buffer_injective below (by omega) same
      omega

omit [DecidableEq Producer] in
/-- What an exchange of the tail does: the tail moves on, or has already moved. -/
theorem Sound.exchange_effect {tempTail newBuffer : Address}
    (linking : view.Linking tempTail newBuffer) :
    (view.observeExchange state.memory tempTail).WellFormed ∧
      Represents (state.memory.exchangeTail tempTail newBuffer)
        (view.observeExchange state.memory tempTail) ∧
      view.Produces (view.observeExchange state.memory tempTail) ∧
      (view.observeExchange state.memory tempTail).slot = view.slot := by
  obtain ⟨wellFormed, represents, _, _, _⟩ := sound
  rw [View.observeExchange]
  rcases linking with ⟨pending, rfl, rfl⟩ | ⟨index, bound, rfl⟩
  · rw [if_pos represents.tailOfQueue]
    exact ⟨wellFormed.advanceTail pending, represents.exchangeTail, View.produces_advanceTail, rfl⟩
  · have moved : state.memory.tailOfQueue ≠ view.buffer index := by
      intro same
      have bound' := bound.trans wellFormed.tail_lt
      exact Nat.ne_of_lt bound
        ((represents.tailOfQueue_eq_iff wellFormed bound').mp same.symm)
    rw [Memory.exchangeTail, if_neg moved, if_neg moved]
    exact ⟨wellFormed, represents, .refl view, rfl⟩

omit [DecidableEq Producer] in
/-- The number of elements up to the end of a buffer that the tail has reached. -/
theorem Sound.numberOfElements_eq {index : Nat} (room : view.Room)
    (bound : index ≤ view.tailIndex) :
    numberOfElements (state.memory.positionInQueue (view.buffer index)) =
        bufferSize * (index + 1) ∧
      prevSize (state.memory.positionInQueue (view.buffer index)) = bufferSize * index := by
  have below := bound.trans_lt sound.wellFormed.tail_lt
  rw [sound.represents.position index below]
  simp only [View.Room, bufferSize] at room
  constructor
  · refine wrap_of_lt ?_
    simp only [bufferSize]
    omega
  · refine prevSize_of_lt ?_
    simp only [bufferSize]
    omega

omit [DecidableEq Producer] in
/-- The walk back from a buffer does not skip the buffer of an empty slot. -/
theorem Sound.walk_back {index location : Nat} (bound : index ≤ view.tailIndex)
    (empty : view.slot location = .EMPTY) (before : location < bufferSize * index) :
    ∃ lower < index, state.memory.prev (view.buffer index) = some (view.buffer lower) ∧
      location / bufferSize ≤ lower := by
  have positive : 0 < index := by
    simp only [bufferSize] at before
    omega
  obtain ⟨lower, less, prev, filled⟩ := sound.represents.walk index positive
    (bound.trans_lt sound.wellFormed.tail_lt)
  refine ⟨lower, less, prev, ?_⟩
  by_contra skipped
  refine filled (location / bufferSize) (Nat.not_le.mp skipped) ?_ (location % bufferSize)
    (Nat.mod_lt _ (by decide)) ?_
  · simp only [bufferSize] at before ⊢
    omega
  · rwa [Nat.div_add_mod]

omit [DecidableEq Producer] in
/-- The slot a producer has located is the slot of its location. -/
theorem Sound.located_slot {location prevSize : Nat} {tempTail : Address} {isLastBuffer : Bool}
    (located : view.Located location prevSize tempTail isLastBuffer) :
    location - prevSize = location % bufferSize ∧
      state.memory.isSet tempTail (location - prevSize) = view.slot location := by
  obtain ⟨bound, rfl, rfl, _⟩ := located
  have offset : location - bufferSize * (location / bufferSize) = location % bufferSize := by
    simp only [bufferSize]
    omega
  refine ⟨offset, ?_⟩
  rw [offset, sound.represents.slot _ (bound.trans_lt sound.wellFormed.tail_lt) _
    (Nat.mod_lt _ (by decide)), Nat.div_add_mod]

/-- The publication of a value in its slot. -/
theorem Sound.publish {data : Value} {location prevSize : Nat} {tempTail : Address}
    {isLastBuffer : Bool} (here : (state.producers producer).location = some location)
    (owned : view.Owned data location)
    (located : view.Located location prevSize tempTail isLastBuffer)
    (holds : pc.Holds (view.publish location)) (done : pc.location = none) :
    Sound { state with
      memory := state.memory.fillSlot tempTail (location - prevSize) data
      producers := Function.update state.producers producer pc } (view.publish location) ∧
      view.Produces (view.publish location) := by
  have offset := (sound.located_slot located).1
  obtain ⟨reached, rfl, _, _⟩ := located
  have bound := reached.trans_lt sound.wellFormed.tail_lt
  have claimed : location < view.claims := (List.getElem?_eq_some_iff.mp owned.2).1
  have found := owned.2
  rw [← Nat.div_add_mod location bufferSize] at found
  have filled := sound.represents.fillSlot bound (Nat.mod_lt location (by decide)) found
  rw [Nat.div_add_mod, ← offset] at filled
  refine sound.step_producer (sound.wellFormed.publish owned.1 claimed reached) filled
    (View.produces_publish owned.1) holds ?_ ?_
  · intro other different _ empty
    refine View.publish_kept (fun same => different ?_) empty
    rw [here, same]
  · intro other mine
    rw [done] at mine
    cases mine

/-! ### The accesses of a producer -/

/-- What a step of a producer leaves: a sound machine, to which it has only added. -/
def Produced (state : State Producer Value) (view : View Value) (producer : Producer)
    (pc : ProducerPc Value) (after : Memory Value) (next : ProducerPc Value) : Prop :=
  Sound { state with
    memory := after
    producers := Function.update state.producers producer next }
    (view.observeProducer state.memory pc) ∧
    view.Produces (view.observeProducer state.memory pc)

variable {after : Memory Value} {next : ProducerPc Value} {data : Value} {location : Nat}

theorem Sound.step_loadTail (pc : state.producers producer = .loadTail data location)
    (step : stepProducer state.memory (.loadTail data location) = some (after, next)) :
    Produced state view producer (.loadTail data location) after next := by
  have holds := sound.producers producer
  rw [pc] at holds
  cases step
  refine sound.read_producer ⟨holds, view.tailIndex, le_rfl, sound.represents.tailOfQueue⟩ ?_
  exact fun _ here => by rwa [pc]

/-- The location lies behind the buffer, or the walk to its own buffer begins. -/
theorem Sound.step_compare {tempTail : Address} (room : view.Room)
    (pc : state.producers producer = .compare data location tempTail)
    (step : stepProducer state.memory (.compare data location tempTail) = some (after, next)) :
    Produced state view producer (.compare data location tempTail) after next := by
  have holds := sound.producers producer
  rw [pc] at holds
  obtain ⟨owned, index, bound, rfl⟩ := holds
  have claimed : location < view.claims := (List.getElem?_eq_some_iff.mp owned.2).1
  simp only [stepProducer, (sound.numberOfElements_eq room bound).1] at step
  split at step <;> cases step
  next beyond =>
    refine sound.read_producer ⟨owned, index, bound, rfl, ?_⟩ fun _ here => by rwa [pc]
    omega
  next within =>
    refine sound.read_producer ⟨owned, index, bound, rfl, ?_, fun last => ?_⟩
      fun _ here => by rwa [pc]
    · simp only [bufferSize] at within ⊢
      omega
    · cases last

theorem Sound.step_loadNext {tempTail : Address}
    (pc : state.producers producer = .loadNext data location tempTail)
    (step : stepProducer state.memory (.loadNext data location tempTail) = some (after, next)) :
    Produced state view producer (.loadNext data location tempTail) after next := by
  have holds := sound.producers producer
  rw [pc] at holds
  simp only [stepProducer] at step
  split at step <;> cases step
  · exact sound.read_producer holds fun _ here => by rwa [pc]
  · exact sound.read_producer holds.1 fun _ here => by rwa [pc]

theorem Sound.step_exchangeNext {tempTail : Address} (room : view.Room)
    (pc : state.producers producer = .exchangeNext data location tempTail)
    (step : stepProducer state.memory (.exchangeNext data location tempTail) =
      some (after, next)) :
    Produced state view producer (.exchangeNext data location tempTail) after next := by
  have holds := sound.producers producer
  rw [pc] at holds
  rw [Produced, View.observeProducer]
  simp only [stepProducer] at step
  split at step <;> cases step
  next unlinked =>
    obtain ⟨wellFormed, represents, produces, slot, linking⟩ :=
      sound.link_effect room holds.2 unlinked
    rw [if_pos unlinked]
    refine sound.step_producer wellFormed represents produces ⟨⟨?_, ?_⟩, linking⟩ ?_ ?_
    · rw [slot]
      exact holds.1.1
    · exact produces.claimed_get holds.1.2
    · exact fun _ _ _ empty => slot ▸ empty
    · exact fun _ here => Or.inl (by rwa [pc])
  next other linked =>
    rw [if_neg (by rw [linked]; exact Option.some_ne_none other)]
    exact sound.read_producer holds.1 fun _ here => by rwa [pc]

theorem Sound.step_exchangeTail {tempTail newBuffer : Address}
    (pc : state.producers producer = .exchangeTail data location tempTail newBuffer)
    (step : stepProducer state.memory (.exchangeTail data location tempTail newBuffer) =
      some (after, next)) :
    Produced state view producer (.exchangeTail data location tempTail newBuffer) after next := by
  have holds := sound.producers producer
  rw [pc] at holds
  cases step
  obtain ⟨wellFormed, represents, produces, slot⟩ := sound.exchange_effect holds.2
  refine sound.step_producer wellFormed represents produces ⟨?_, ?_⟩ ?_ ?_
  · rw [View.observeProducer, slot]
    exact holds.1.1
  · exact produces.claimed_get holds.1.2
  · exact fun _ _ _ empty => (congrFun slot _).trans empty
  · exact fun _ here => Or.inl (by rwa [pc])

/-- The walk goes back a buffer, or has found the buffer of the location. -/
theorem Sound.step_walk {tempTail : Address} {isLastBuffer : Bool} (room : view.Room)
    (pc : state.producers producer = .walk data location tempTail isLastBuffer)
    (step : stepProducer state.memory (.walk data location tempTail isLastBuffer) =
      some (after, next)) :
    Produced state view producer (.walk data location tempTail isLastBuffer) after next := by
  have holds := sound.producers producer
  rw [pc] at holds
  obtain ⟨owned, index, bound, rfl, reached, notLast⟩ := holds
  have below := bound.trans_lt sound.wellFormed.tail_lt
  simp only [stepProducer, (sound.numberOfElements_eq room bound).2] at step
  by_cases before : location < bufferSize * index
  · obtain ⟨lower, less, prev, above⟩ := sound.walk_back bound owned.1 before
    simp only [if_pos before, prev] at step
    cases step
    refine sound.read_producer ⟨owned, lower, less.le.trans bound, rfl, above, fun _ => ?_⟩
      fun _ here => by rwa [pc]
    omega
  · simp only [if_neg before] at step
    cases step
    have same : location / bufferSize = index := by
      simp only [bufferSize] at before reached ⊢
      omega
    subst same
    exact sound.read_producer ⟨owned, bound, rfl, rfl, notLast⟩ fun _ here => by rwa [pc]

theorem Sound.step_loadSlot {prevSize : Nat} {tempTail : Address} {isLastBuffer : Bool}
    (pc : state.producers producer = .loadSlot data location prevSize tempTail isLastBuffer)
    (step : stepProducer state.memory (.loadSlot data location prevSize tempTail isLastBuffer) =
      some (after, next)) :
    Produced state view producer (.loadSlot data location prevSize tempTail isLastBuffer)
      after next := by
  have holds := sound.producers producer
  rw [pc] at holds
  simp only [stepProducer, (sound.located_slot holds.2).2, if_pos holds.1.1] at step
  cases step
  exact sound.read_producer holds fun _ here => by rwa [pc]

theorem Sound.step_publish {prevSize : Nat} {tempTail : Address} {isLastBuffer : Bool}
    (pc : state.producers producer = .publish data location prevSize tempTail isLastBuffer)
    (step : stepProducer state.memory (.publish data location prevSize tempTail isLastBuffer) =
      some (after, next)) :
    Produced state view producer (.publish data location prevSize tempTail isLastBuffer)
      after next := by
  have holds := sound.producers producer
  rw [pc] at holds
  obtain ⟨owned, located⟩ := holds
  have here : (state.producers producer).location = some location := by rw [pc]; rfl
  have finished : (view.publish location).Finished data := by
    refine ⟨location, ?_, owned.2⟩
    rw [View.slot_publish, if_pos rfl]
    exact SlotState.noConfusion
  have claimed : location < view.claims := (List.getElem?_eq_some_iff.mp owned.2).1
  simp only [stepProducer] at step
  split at step <;> cases step
  next last =>
    refine sound.publish here owned located ⟨finished, location / bufferSize, located.1,
      located.2.1, ?_⟩ rfl
    change _ ≤ view.claims + 1
    have offset := last.1
    rw [(sound.located_slot located).1] at offset
    simp only [bufferSize] at offset ⊢
    omega
  next notLast => exact sound.publish here owned located finished rfl

theorem Sound.step_preallocateNext {tempTail : Address} (room : view.Room)
    (pc : state.producers producer = .preallocateNext data tempTail)
    (step : stepProducer state.memory (.preallocateNext data tempTail) = some (after, next)) :
    Produced state view producer (.preallocateNext data tempTail) after next := by
  have holds := sound.producers producer
  rw [pc] at holds
  rw [Produced, View.observeProducer]
  simp only [stepProducer] at step
  split at step <;> cases step
  next unlinked =>
    obtain ⟨wellFormed, represents, produces, slot, linking⟩ :=
      sound.link_effect room holds.2 unlinked
    rw [if_pos unlinked]
    refine sound.step_producer wellFormed represents produces
      ⟨produces.finished holds.1, linking⟩ ?_ fun _ here => by cases here
    exact fun _ _ _ empty => slot ▸ empty
  next other linked =>
    rw [if_neg (by rw [linked]; exact Option.some_ne_none other)]
    exact sound.read_producer holds.1 fun _ here => by cases here

theorem Sound.step_preallocateTail {tempTail newBuffer : Address}
    (pc : state.producers producer = .preallocateTail data tempTail newBuffer)
    (step : stepProducer state.memory (.preallocateTail data tempTail newBuffer) =
      some (after, next)) :
    Produced state view producer (.preallocateTail data tempTail newBuffer) after next := by
  have holds := sound.producers producer
  rw [pc] at holds
  cases step
  obtain ⟨wellFormed, represents, produces, slot⟩ := sound.exchange_effect holds.2
  refine sound.step_producer wellFormed represents produces (produces.finished holds.1) ?_
    fun _ here => by cases here
  exact fun _ _ _ empty => (congrFun slot _).trans empty

/-- Every access of a producer keeps the machine sound. -/
theorem Sound.perform_producer [DecidableEq Value] {target : State Producer Value}
    (claims : ∀ data, state.producers producer = .claim data → view.claims + 1 < 2 ^ 32)
    (room : view.Room) (step : perform state (.producer producer) = some target) :
    Sound target (view.observe state (.producer producer)) ∧
      view.Produces (view.observe state (.producer producer)) := by
  obtain ⟨after, next, moves, rfl⟩ := MPSCQueue.perform_producer step
  rw [View.observe]
  cases pc : state.producers producer with
  | idle => simp only [pc, stepProducer, reduceCtorEq] at moves
  | claim data =>
    rw [pc] at moves
    cases moves
    exact sound.claim (claims data pc)
  | loadTail => exact sound.step_loadTail pc (pc ▸ moves)
  | compare => exact sound.step_compare room pc (pc ▸ moves)
  | loadNext => exact sound.step_loadNext pc (pc ▸ moves)
  | exchangeNext => exact sound.step_exchangeNext room pc (pc ▸ moves)
  | exchangeTail => exact sound.step_exchangeTail pc (pc ▸ moves)
  | walk => exact sound.step_walk room pc (pc ▸ moves)
  | loadSlot => exact sound.step_loadSlot pc (pc ▸ moves)
  | publish => exact sound.step_publish pc (pc ▸ moves)
  | preallocateNext => exact sound.step_preallocateNext room pc (pc ▸ moves)
  | preallocateTail => exact sound.step_preallocateTail pc (pc ▸ moves)
  | returning => simp only [pc, stepProducer, reduceCtorEq] at moves

end Producer

end MarketSandbox.MPSCQueue
