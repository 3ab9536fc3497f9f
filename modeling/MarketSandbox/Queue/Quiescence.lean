/-
This file proves that a queue in which no enqueue is in progress is reported
empty only if every value has been returned. Every loose end of an unfinished
enqueue, an empty slot, a tail that lags behind the last buffer or a buffer not
yet appended in advance, is attended to by a producer; without producers there
is none, and then neither exit of dequeue can be taken wrongly.
-/

import MarketSandbox.Queue.Emptiness

namespace MarketSandbox.MPSCQueue

open Transition

variable {Producer Value : Type} {state : State Producer Value} {view grown : View Value}
  {memory : Memory Value}

/-! ### Loose ends -/

/-- The buffer from which a producer is about to move the tail. -/
def ProducerPc.linking : ProducerPc Value → Option Address
  | .exchangeTail _ _ tempTail _ => some tempTail
  | .preallocateTail _ tempTail _ => some tempTail
  | _ => none

/-- The buffer behind which a producer is about to append one in advance. -/
def ProducerPc.preallocating : ProducerPc Value → Option Address
  | .preallocateNext _ tempTail => some tempTail
  | _ => none

/-- The last slot but one of a buffer, whose producer appends the next buffer in advance. -/
def trigger (index : Nat) : Nat := bufferSize * index + (bufferSize - 2)

/-- Every loose end is attended to by a producer. -/
structure Attended (producers : Producer → ProducerPc Value) (view : View Value) : Prop where
  empty : ∀ location < view.claims, view.slot location = .EMPTY →
    ∃ producer, (producers producer).location = some location
  lagging : view.tailIndex + 2 = view.length →
    ∃ producer, (producers producer).linking = some (view.buffer view.tailIndex)
  filled : ∀ index < view.length, view.slot (trigger index) ≠ .EMPTY → index + 1 < view.length ∨
    ∃ producer, (producers producer).preallocating = some (view.buffer index)

section Steps

variable [DecidableEq Producer] {producers : Producer → ProducerPc Value} {producer : Producer}
  {pc : ProducerPc Value}

/-- A producer's step keeps the loose ends of the others attended to, so it answers for
its own and for those it makes. -/
theorem Attended.step (attended : Attended producers view)
    (empty : ∀ location < grown.claims, grown.slot location = .EMPTY →
      pc.location = some location ∨ (location < view.claims ∧ view.slot location = .EMPTY ∧
        (producers producer).location ≠ some location))
    (lagging : grown.tailIndex + 2 = grown.length →
      pc.linking = some (grown.buffer grown.tailIndex) ∨
        (view.tailIndex + 2 = view.length ∧
          grown.buffer grown.tailIndex = view.buffer view.tailIndex ∧
          (producers producer).linking ≠ some (view.buffer view.tailIndex)))
    (filled : ∀ index < grown.length, grown.slot (trigger index) ≠ .EMPTY →
      index + 1 < grown.length ∨ pc.preallocating = some (grown.buffer index) ∨
        (index < view.length ∧ view.slot (trigger index) ≠ .EMPTY ∧
          view.length = grown.length ∧ grown.buffer index = view.buffer index ∧
          (producers producer).preallocating ≠ some (view.buffer index))) :
    Attended (Function.update producers producer pc) grown := by
  -- the producer that attended before is another one, and has not moved
  have other {Item : Type} {attends : ProducerPc Value → Option Item} {item : Item}
      (old : ∃ producer, attends (producers producer) = some item)
      (different : attends (producers producer) ≠ some item) :
      ∃ other, attends (Function.update producers producer pc other) = some item := by
    obtain ⟨other, attending⟩ := old
    refine ⟨other, ?_⟩
    rwa [Function.update_of_ne]
    rintro rfl
    exact different attending
  have mine {Item : Type} {attends : ProducerPc Value → Option Item} {item : Item}
      (now : attends pc = some item) :
      ∃ other, attends (Function.update producers producer pc other) = some item :=
    ⟨producer, by rwa [Function.update_self]⟩
  refine ⟨fun location bound unfilled => ?_, fun lags => ?_, fun index bound written => ?_⟩
  · rcases empty location bound unfilled with now | ⟨claimed, unfilled, different⟩
    · exact mine now
    · exact other (attended.empty location claimed unfilled) different
  · rcases lagging lags with now | ⟨lags, same, different⟩
    · exact mine now
    · rw [same]
      exact other (attended.lagging lags) different
  · rcases filled index bound written with more | now | ⟨bound, written, length, same, different⟩
    · exact Or.inl more
    · exact Or.inr (mine now)
    · rcases attended.filled index bound written with more | old
      · exact Or.inl (length ▸ more)
      · rw [same]
        exact Or.inr (other old different)

/-- A step that changes no view and leaves no loose end. -/
theorem Attended.read (attended : Attended producers view)
    (location : pc.location = (producers producer).location)
    (linking : (producers producer).linking ≠ some (view.buffer view.tailIndex))
    (preallocating : ∀ index, index + 1 = view.length →
      (producers producer).preallocating ≠ some (view.buffer index)) :
    Attended (Function.update producers producer pc) view := by
  refine attended.step (fun other bound unfilled => ?_)
    (fun lags => Or.inr ⟨lags, rfl, linking⟩) fun index bound written => ?_
  · rw [location]
    by_cases here : (producers producer).location = some other
    · exact Or.inl here
    · exact Or.inr ⟨bound, unfilled, here⟩
  · by_cases last : index + 1 = view.length
    · exact Or.inr (Or.inr ⟨bound, written, rfl, rfl, preallocating index last⟩)
    · exact Or.inl (by omega)

/-- A step of a producer that was about to neither move the tail nor append a buffer. -/
theorem Attended.pass (attended : Attended producers view)
    (location : pc.location = (producers producer).location)
    (linking : (producers producer).linking = none)
    (preallocating : (producers producer).preallocating = none) :
    Attended (Function.update producers producer pc) view := by
  refine attended.read location ?_ fun index _ => ?_
  · rw [linking]
    exact (Option.some_ne_none _).symm
  · rw [preallocating]
    exact (Option.some_ne_none _).symm

omit [DecidableEq Producer] in
theorem Attended.consume (attended : Attended producers view) (consumes : view.Consumes grown) :
    Attended producers grown where
  empty location bound unfilled := by
    refine attended.empty location ?_ ((consumes.empty_iff location).mp unfilled)
    rwa [View.claims, ← consumes.claimed]
  lagging lags := by
    rw [consumes.tailIndex, consumes.length] at lags
    rw [consumes.tailIndex, consumes.buffer]
    exact attended.lagging lags
  filled index bound written := by
    rw [consumes.length] at bound ⊢
    rw [consumes.buffer]
    exact attended.filled index bound (mt (consumes.empty_iff _).mpr written)

end Steps

/-! ### Every step of a producer -/

section Producer

variable [DecidableEq Producer] {producer : Producer} {pc : ProducerPc Value}
  (sound : Sound state view) (attended : Attended state.producers view)
include sound attended

/-- A buffer linked behind another one. -/
theorem Sound.attended_link {tempTail : Address} (growable : view.Growable tempTail)
    (unlinked : state.memory.next tempTail = none)
    (location : pc.location = (state.producers producer).location)
    (linking : (state.producers producer).linking = none) (moves : pc.linking = some tempTail)
    (preallocating : ∀ address, (state.producers producer).preallocating = some address →
      address = tempTail) :
    Attended (Function.update state.producers producer pc)
      (view.observeLink state.memory tempTail) := by
  obtain ⟨index, bound, rfl, _⟩ := growable
  have wellFormed := sound.wellFormed
  have tailBound := wellFormed.tail_lt
  have below := bound.trans_lt tailBound
  rw [View.observeLink]
  split
  next last =>
    have final : view.length - 1 < view.length := by omega
    have atEnd : index = view.length - 1 :=
      sound.represents.buffer_injective below final last
    have atTail : view.tailIndex = index := by omega
    refine attended.step (fun other bound unfilled => ?_) (fun _ => Or.inl ?_)
      fun other bound written => ?_
    · rw [location]
      by_cases here : (state.producers producer).location = some other
      · exact Or.inl here
      · exact Or.inr ⟨bound, unfilled, here⟩
    · rw [moves]
      change _ = some (Function.update view.buffer view.length _ view.tailIndex)
      rw [Function.update_of_ne (Nat.ne_of_lt tailBound), atTail]
    · rcases Nat.lt_succ_iff_lt_or_eq.mp bound with old | rfl
      · exact Or.inl (Nat.succ_lt_succ old)
      · -- the slots of the new buffer are empty
        have reached := wellFormed.written _ written
        simp only [trigger, bufferSize] at reached
        omega
  next notLast =>
    have notLinking : (state.producers producer).linking ≠ some (view.buffer view.tailIndex) := by
      rw [linking]
      exact (Option.some_ne_none _).symm
    refine attended.read location notLinking fun other last here => ?_
    refine notLast ?_
    rw [← preallocating _ here, ← last, Nat.add_sub_cancel]

/-- An exchange of the tail. -/
theorem Sound.attended_exchange {tempTail : Address}
    (location : pc.location = (state.producers producer).location)
    (moves : (state.producers producer).linking = some tempTail)
    (preallocating : (state.producers producer).preallocating = none) :
    Attended (Function.update state.producers producer pc)
      (view.observeExchange state.memory tempTail) := by
  have wellFormed := sound.wellFormed
  rw [View.observeExchange]
  split
  next moved =>
    refine attended.step (fun other bound unfilled => ?_) (fun lags => ?_)
      fun other bound written => Or.inr (Or.inr ⟨bound, written, rfl, rfl, ?_⟩)
    · rw [location]
      by_cases here : (state.producers producer).location = some other
      · exact Or.inl here
      · exact Or.inr ⟨bound, unfilled, here⟩
    · have length := wellFormed.length_le
      change view.tailIndex + 1 + 2 = view.length at lags
      omega
    · rw [preallocating]
      exact (Option.some_ne_none _).symm
  next notMoved =>
    refine attended.read location ?_ fun index _ => ?_
    · rw [moves, ← sound.represents.tailOfQueue]
      exact fun same => notMoved (Option.some_inj.mp same).symm
    · rw [preallocating]
      exact (Option.some_ne_none _).symm

/-- A publication, after which the producer of the last slot but one of the last buffer
appends a buffer in advance. -/
theorem Sound.attended_publish {location prevSize : Nat} {tempTail : Address}
    {isLastBuffer : Bool} (here : (state.producers producer).location = some location)
    (linking : (state.producers producer).linking = none)
    (preallocating : (state.producers producer).preallocating = none)
    (located : view.Located location prevSize tempTail isLastBuffer)
    (appends : location - prevSize = bufferSize - 2 ∧ isLastBuffer = true →
      pc.preallocating = some tempTail) :
    Attended (Function.update state.producers producer pc) (view.publish location) := by
  refine attended.step (fun other bound unfilled => ?_) (fun lags => ?_)
    fun other bound written => ?_
  · rw [View.slot_publish] at unfilled
    split at unfilled
    next => exact SlotState.noConfusion unfilled
    next different =>
      refine Or.inr ⟨bound, unfilled, fun same => different ?_⟩
      exact (Option.some_inj.mp (here.symm.trans same)).symm
  · refine Or.inr ⟨lags, rfl, ?_⟩
    rw [linking]
    exact (Option.some_ne_none _).symm
  · by_cases same : trigger other = location
    · obtain ⟨offset, _⟩ := sound.located_slot located
      obtain ⟨reached, address, _, notLast⟩ := located
      have buffer : location / bufferSize = other ∧ location % bufferSize = bufferSize - 2 := by
        simp only [trigger, bufferSize] at same ⊢
        omega
      cases last : isLastBuffer with
      | true =>
        refine Or.inr (Or.inl ?_)
        rw [appends ⟨offset.trans buffer.2, last⟩, address, buffer.1]
        rfl
      | false => exact Or.inl (buffer.1 ▸ notLast last)
    · rw [View.slot_publish, if_neg same] at written
      refine Or.inr (Or.inr ⟨bound, written, rfl, rfl, ?_⟩)
      rw [preallocating]
      exact (Option.some_ne_none _).symm

variable {after : Memory Value} {next : ProducerPc Value} {data : Value}

/-- The slot claimed is empty, and its producer attends to it. -/
theorem Sound.attended_claim (here : state.producers producer = .claim data)
    (step : stepProducer state.memory (.claim data) = some (after, next)) :
    Attended (Function.update state.producers producer next) (view.claim data) := by
  cases step
  have nothing {Item : Type} (item : Item) : (none : Option Item) ≠ some item :=
    (Option.some_ne_none item).symm
  refine attended.step (fun other bound unfilled => ?_) (fun lags => Or.inr ⟨lags, rfl, ?_⟩)
    fun other bound written => Or.inr (Or.inr ⟨bound, written, rfl, rfl, ?_⟩)
  · have below : other < view.claims + 1 := by
      simpa [View.claim, View.claims, TicketChannel.claim] using bound
    rcases Nat.lt_succ_iff_lt_or_eq.mp below with old | rfl
    · refine Or.inr ⟨old, unfilled, ?_⟩
      rw [here]
      exact nothing other
    · exact Or.inl (congrArg some sound.represents.tail)
  · rw [here]
    exact nothing _
  · rw [here]
    exact nothing _

theorem Sound.attended_exchangeNext {location : Nat} {tempTail : Address}
    (here : state.producers producer = .exchangeNext data location tempTail)
    (step : stepProducer state.memory (.exchangeNext data location tempTail) =
      some (after, next)) :
    Attended (Function.update state.producers producer next)
      (view.observeProducer state.memory (.exchangeNext data location tempTail)) := by
  have holds := sound.producers producer
  rw [here] at holds
  rw [View.observeProducer]
  simp only [stepProducer] at step
  split at step <;> cases step
  next unlinked =>
    rw [if_pos unlinked]
    exact sound.attended_link attended holds.2 unlinked (by rw [here]; rfl) (by rw [here]; rfl)
      rfl fun address preallocating => by
        rw [here] at preallocating
        cases preallocating
  next other linked =>
    rw [if_neg (by rw [linked]; exact Option.some_ne_none other)]
    exact attended.pass (by rw [here]; rfl) (by rw [here]; rfl) (by rw [here]; rfl)

theorem Sound.attended_walk {location : Nat} {tempTail : Address} {isLastBuffer : Bool}
    (fits : view.Fits) (here : state.producers producer = .walk data location tempTail isLastBuffer)
    (step : stepProducer state.memory (.walk data location tempTail isLastBuffer) =
      some (after, next)) :
    Attended (Function.update state.producers producer next) view := by
  have holds := sound.producers producer
  rw [here] at holds
  obtain ⟨owned, index, bound, rfl, _, _⟩ := holds
  simp only [stepProducer, (sound.numberOfElements_eq fits.2 bound).2] at step
  by_cases before : location < bufferSize * index
  · obtain ⟨lower, _, prev, _⟩ := sound.walk_back bound owned.1 before
    simp only [if_pos before, prev] at step
    cases step
    exact attended.pass (by rw [here]; rfl) (by rw [here]; rfl) (by rw [here]; rfl)
  · simp only [if_neg before] at step
    cases step
    exact attended.pass (by rw [here]; rfl) (by rw [here]; rfl) (by rw [here]; rfl)

theorem Sound.attended_preallocateNext {tempTail : Address}
    (here : state.producers producer = .preallocateNext data tempTail)
    (step : stepProducer state.memory (.preallocateNext data tempTail) = some (after, next)) :
    Attended (Function.update state.producers producer next)
      (view.observeProducer state.memory (.preallocateNext data tempTail)) := by
  have holds := sound.producers producer
  rw [here] at holds
  rw [View.observeProducer]
  simp only [stepProducer] at step
  split at step <;> cases step
  next unlinked =>
    rw [if_pos unlinked]
    refine sound.attended_link attended holds.2 unlinked (by rw [here]; rfl) (by rw [here]; rfl)
      rfl ?_
    rw [here]
    exact fun address same => (Option.some_inj.mp same).symm
  next other linked =>
    rw [if_neg (by rw [linked]; exact Option.some_ne_none other)]
    have notLinking : (state.producers producer).linking ≠ some (view.buffer view.tailIndex) := by
      rw [here]
      exact (Option.some_ne_none _).symm
    refine attended.read (by rw [here]; rfl) notLinking fun index last preallocating => ?_
    -- the buffer behind which another one is linked is not the last
    rw [here] at preallocating
    have address := Option.some_inj.mp preallocating
    have final := sound.represents.last
    rw [← last, Nat.add_sub_cancel, ← address, linked] at final
    exact Option.some_ne_none other final

theorem Sound.attended_producer [DecidableEq Value] {target : State Producer Value}
    (fits : view.Fits) (step : perform state (.producer producer) = some target) :
    Attended target.producers (view.observe state (.producer producer)) := by
  have holds := sound.producers producer
  obtain ⟨after, next, moves, rfl⟩ := MPSCQueue.perform_producer step
  rw [View.observe]
  cases pc : state.producers producer with
  | idle => simp only [pc, stepProducer, reduceCtorEq] at moves
  | claim data => exact sound.attended_claim attended pc (pc ▸ moves)
  | loadTail data location =>
    rw [pc] at moves
    cases moves
    exact attended.pass (by rw [pc]; rfl) (by rw [pc]; rfl) (by rw [pc]; rfl)
  | compare data location tempTail =>
    simp only [pc, stepProducer] at moves
    split at moves <;> cases moves
    · exact attended.pass (by rw [pc]; rfl) (by rw [pc]; rfl) (by rw [pc]; rfl)
    · exact attended.pass (by rw [pc]; rfl) (by rw [pc]; rfl) (by rw [pc]; rfl)
  | loadNext data location tempTail =>
    simp only [pc, stepProducer] at moves
    split at moves <;> cases moves
    · exact attended.pass (by rw [pc]; rfl) (by rw [pc]; rfl) (by rw [pc]; rfl)
    · exact attended.pass (by rw [pc]; rfl) (by rw [pc]; rfl) (by rw [pc]; rfl)
  | exchangeNext => exact sound.attended_exchangeNext attended pc (pc ▸ moves)
  | exchangeTail data location tempTail newBuffer =>
    rw [pc] at moves
    cases moves
    exact sound.attended_exchange attended (by rw [pc]; rfl) (by rw [pc]; rfl) (by rw [pc]; rfl)
  | walk => exact sound.attended_walk attended fits pc (pc ▸ moves)
  | loadSlot data location prevSize tempTail isLastBuffer =>
    rw [pc] at holds
    simp only [pc, stepProducer, (sound.located_slot holds.2).2, if_pos holds.1.1] at moves
    cases moves
    exact attended.pass (by rw [pc]; rfl) (by rw [pc]; rfl) (by rw [pc]; rfl)
  | publish data location prevSize tempTail isLastBuffer =>
    rw [pc] at holds
    simp only [pc, stepProducer] at moves
    split at moves <;> cases moves
    next last =>
      exact sound.attended_publish attended (by rw [pc]; rfl) (by rw [pc]; rfl) (by rw [pc]; rfl)
        holds.2 fun _ => rfl
    next notLast =>
      exact sound.attended_publish attended (by rw [pc]; rfl) (by rw [pc]; rfl) (by rw [pc]; rfl)
        holds.2 fun both => absurd both notLast
  | preallocateNext => exact sound.attended_preallocateNext attended pc (pc ▸ moves)
  | preallocateTail data tempTail newBuffer =>
    rw [pc] at moves
    cases moves
    exact sound.attended_exchange attended (by rw [pc]; rfl) (by rw [pc]; rfl) (by rw [pc]; rfl)
  | returning => simp only [pc, stepProducer, reduceCtorEq] at moves

end Producer

section Runs

variable [DecidableEq Producer] [DecidableEq Value]

theorem Attended.perform {label : Label Producer Value} {target : State Producer Value}
    (attended : Attended state.producers view) (sound : Sound state view) (fits : view.Fits)
    (step : perform state label = some target) :
    Attended target.producers (view.observe state label) := by
  cases label with
  | enqueueCall producer data =>
    cases pc : state.producers producer <;> simp only [MPSCQueue.perform, pc, reduceCtorEq] at step
    obtain rfl := Option.some_inj.mp step
    exact attended.pass (by rw [pc]; rfl) (by rw [pc]; rfl) (by rw [pc]; rfl)
  | enqueueReturn producer data =>
    by_cases pc : state.producers producer = .returning data
    · simp only [MPSCQueue.perform, if_pos pc, Option.some.injEq] at step
      subst step
      exact attended.pass (by rw [pc]; rfl) (by rw [pc]; rfl) (by rw [pc]; rfl)
    · simp only [MPSCQueue.perform, if_neg pc, reduceCtorEq] at step
  | dequeueCall =>
    cases pc : state.consumer <;> simp only [MPSCQueue.perform, pc, reduceCtorEq] at step
    obtain rfl := Option.some_inj.mp step
    exact attended
  | dequeueReturn result =>
    simp only [MPSCQueue.perform] at step
    split at step <;> cases step
    exact attended
  | producer producer => exact sound.attended_producer attended fits step
  | consumer =>
    have consumes := (sound.perform_consumer step).2
    simp only [MPSCQueue.perform] at step
    split at step <;> cases step
    exact attended.consume consumes

variable [Inhabited Value]

theorem observed_attended {labels : List (Label Producer Value)}
    {pair : State Producer Value × View Value} (run : Run observed labels pair)
    (few : FewEnqueues labels) : Attended pair.1.producers pair.2 := by
  refine @Run.invariant_of_admissible _ _ observed FewEnqueues
    (fun _ pair => Attended pair.1.producers pair.2) labels pair ?_ ?_ ?_ run few
  · exact fun _ _ few => few.of_append
  · rintro ⟨state, view⟩ ⟨rfl, rfl⟩
    exact ⟨nofun, nofun, fun _ _ filled => absurd rfl filled⟩
  · rintro labels ⟨state, view⟩ label ⟨target, grown⟩ before few attended ⟨step, rfl⟩
    have sound := observed_sound before few.of_append
    exact attended.perform sound
      (((callsAccounted before).small few.of_append).fits sound.wellFormed) step

end Runs

/-! ### Without producers -/

/-- No enqueue is in progress. -/
def Quiet (state : State Producer Value) : Prop := ∀ producer, state.producers producer = .idle

section Quiet

variable (quiet : Quiet state) (attended : Attended state.producers view)
include quiet attended

theorem Quiet.filled {location : Nat} (claimed : location < view.claims) :
    view.slot location ≠ .EMPTY := by
  intro empty
  obtain ⟨producer, here⟩ := attended.empty location claimed empty
  rw [quiet producer] at here
  exact Option.some_ne_none location here.symm

/-- The tail points to the last buffer, and its last slot but one is empty. -/
theorem Quiet.claims_le (wellFormed : view.WellFormed) :
    view.tailIndex + 1 = view.length ∧ view.claims ≤ trigger view.tailIndex := by
  have bound := wellFormed.tail_lt
  have length := wellFormed.length_le
  have notLagging : view.tailIndex + 2 ≠ view.length := by
    intro lags
    obtain ⟨producer, here⟩ := attended.lagging lags
    rw [quiet producer] at here
    exact Option.some_ne_none _ here.symm
  have last : view.tailIndex + 1 = view.length := by omega
  refine ⟨last, Nat.not_lt.mp fun claimed => ?_⟩
  rcases attended.filled view.tailIndex bound (quiet.filled attended claimed) with more | attending
  · omega
  · obtain ⟨producer, here⟩ := attending
    rw [quiet producer] at here
    exact Option.some_ne_none _ here.symm

end Quiet

/-- What the consumer has just read before it compares the head with the tail, and before
it reads the head slot for the last time. -/
def ConsumerPc.JustRead (view : View Value) : ConsumerPc Value → Prop
  | .compareTail => view.headIndex = view.tailIndex
  | .readEmpty => view.slot view.front ≠ .SET
  | _ => True

theorem justRead_resume (caller : Caller Value) (moved : Bool) :
    (resume memory caller moved).JustRead view := by
  cases caller <;> cases moved <;> simp only [resume] <;> (try split) <;> trivial

theorem justRead_moveToNextBuffer (caller : Caller Value) :
    (moveToNextBuffer memory caller).JustRead view := by
  rw [moveToNextBuffer]
  split
  · trivial
  · exact justRead_resume caller true

/-- The consumer's next access of the memory reads what the view holds. -/
theorem Sound.justRead {pc : ConsumerPc Value} (sound : Sound state view)
    (step : stepConsumer state.memory state.consumer = some (memory, pc)) :
    pc.JustRead (view.observeConsumer state.memory state.consumer) := by
  have holds := sound.consumer
  have wellFormed := sound.wellFormed
  have represents := sound.represents
  cases start : state.consumer with
  | compareBuffer =>
    simp only [start, stepConsumer] at step
    split at step <;> cases step
    next same =>
      rw [represents.headOfQueue, represents.tailOfQueue_eq_iff wellFormed
        (wellFormed.live_lt _ wellFormed.head_mem)] at same
      exact same
    next => trivial
  | readSet =>
    rw [start] at holds
    have slot := represents.front_slot wellFormed holds.2.1
    simp only [start, stepConsumer, slot] at step
    simp only [View.observeConsumer, slot]
    split at step <;> cases step
    next => exact justRead_moveToNextBuffer _
    next notSet =>
      rw [if_neg notSet]
      exact notSet
  | _ =>
    simp only [start, stepConsumer] at step
    repeat' split at step
    all_goals cases step
    all_goals first
      | trivial
      | exact justRead_resume _ _
      | exact justRead_moveToNextBuffer _

section Answer

variable [DecidableEq Producer] [DecidableEq Value]

omit [DecidableEq Producer] [DecidableEq Value] in
/-- Without producers no exit is taken wrongly. -/
theorem Quiet.noWrongExit (quiet : Quiet state) (attended : Attended state.producers view)
    (sound : Sound state view) (justRead : state.consumer.JustRead view) :
    NoWrongExit state .consumer := by
  have holds := sound.consumer
  have wellFormed := sound.wellFormed
  have represents := sound.represents
  have headBound := wellFormed.live_lt _ wellFormed.head_mem
  refine fun _ => ⟨fun start equal => ?_, fun start => ?_⟩
  · rw [start] at holds justRead
    obtain ⟨_, inside, _⟩ := holds
    have reached : view.front ≤ view.claims := by
      by_contra beyond
      exact lt_irrefl _ (wellFormed.claimed (wellFormed.passed view.claims (Nat.not_le.mp beyond)))
    have bound := (quiet.claims_le attended wellFormed).2
    have same : view.headIndex = view.tailIndex := justRead
    rw [represents.head_eq, represents.tail] at equal
    rw [represents.tail, represents.head_eq, represents.headOfQueue, sound.indexOf_eq headBound]
    simp only [View.front, trigger, bufferSize] at reached bound inside equal ⊢
    omega
  · rw [start] at holds justRead
    rw [represents.front_slot wellFormed holds.2.1]
    exact justRead

variable [Inhabited Value]

/-- A call of dequeue during which no enqueue is in progress returns without a value only if no
filled slot was waiting when it began. -/
theorem quiet_nothing_waiting {front middle : List (Label Producer Value)}
    {source target : State Producer Value × View Value} (run : Run observed front source)
    (quiet : Quiet source.1) (consumes : ∀ label ∈ middle, label = .consumer)
    (steps : Steps observed source (.dequeueCall :: (middle ++ [Label.dequeueReturn none])) target)
    (few : FewEnqueues front) (location : Nat) : ¬ source.2.Waiting location := by
  intro waiting
  cases steps with
  | @cons _ second _ _ _ call rest =>
    obtain ⟨last, during, finish⟩ := rest.split
    cases finish with
    | cons answer _ =>
      have noCalls : called middle = [] := by
        refine List.filterMap_eq_nil_iff.mpr fun label member => ?_
        rw [consumes label member]
      have whole : FewEnqueues (front ++ [Label.dequeueCall] ++ middle) := by
        rw [FewEnqueues, called_append, called_append, noCalls, List.append_nil]
        change (called front ++ []).length < _
        rwa [List.append_nil]
      have start : Quiet second.1 ∧ second.1.consumer.Finds second.2 location ∧
          second.1.consumer.JustRead second.2 := by
        rw [call.2]
        refine ⟨?_, finds_call waiting call.1, ?_⟩
        · rw [(perform_dequeueCall call.1).2]
          exact quiet
        · rw [(perform_dequeueCall call.1).2]
          change (resume source.1.memory .check true).JustRead source.2
          exact justRead_resume .check true
      -- a location waiting before the call would be ahead at its end
      refine not_finds_answer answer.1 (Run.preserve FewEnqueues
        (fun pair => Quiet pair.1 ∧ pair.1.consumer.Finds pair.2 location ∧
          pair.1.consumer.JustRead pair.2) (fun _ _ => FewEnqueues.of_append) ?_
        (run.next call) (during.restrict fun _ _ => trivial) whole start).2.1
      rintro labels ⟨source, sourceView⟩ label ⟨target, targetView⟩ prior few member _
        ⟨quiet, finds, justRead⟩ ⟨step, rfl⟩
      obtain rfl := consumes label member
      have sound := observed_sound prior few.of_append
      have rightly := quiet.noWrongExit (observed_attended prior few.of_append) sound justRead
      refine ⟨?_, sound.finds_step ((callsAccounted prior).small few.of_append) rightly
        (by rintro ⟨⟩) step finds, ?_⟩
      · obtain ⟨_, _, _, rfl⟩ := perform_consumer step
        exact quiet
      · obtain ⟨_, _, next, rfl⟩ := perform_consumer step
        exact sound.justRead next

/-- A call of dequeue during which no enqueue is in progress returns without a value only if
every value enqueued has been returned. -/
theorem quiet_answer {front middle : List (Label Producer Value)}
    {source target : State Producer Value} (run : Run system front source) (quiet : Quiet source)
    (consumes : ∀ label ∈ middle, label = .consumer)
    (steps : Steps system source (.dequeueCall :: (middle ++ [Label.dequeueReturn none])) target)
    (few : FewEnqueues front) : called front ⊆ returned front := by
  obtain ⟨view, observedRun⟩ := run.withHistory View.initial View.observe
  have sound := observed_sound observedRun few
  have tickets := observed_tickets observedRun few
  have attended := observed_attended observedRun few
  obtain ⟨_, observedSteps⟩ := steps.withHistory View.initial view View.observe
  have nothing := quiet_nothing_waiting observedRun quiet consumes observedSteps few
  have outside : source.consumer.inTransit = [] := by
    cases steps with
    | cons call _ => exact inTransit_of_call call
  intro data member
  obtain ⟨pending, perm, _, pending_iff⟩ := callsAccounted observedRun
  have none : pending = [] := by
    refine List.eq_nil_iff_forall_not_mem.mpr ?_
    rintro ⟨producer, value⟩ waits
    have pc := (pending_iff producer value).mp waits
    rw [quiet producer] at pc
    cases pc
  subst none
  rw [List.map_nil, List.append_nil] at perm
  obtain ⟨location, found⟩ := List.mem_iff_getElem?.mp (perm.mem_iff.mp member)
  have claimed : location < view.claims := (List.getElem?_eq_some_iff.mp found).1
  have delivered := sound.delivered_of_not_waiting nothing
    ⟨location, quiet.filled attended claimed, found⟩
  rwa [tickets.values, outside, List.append_nil] at delivered

/-- Dequeue returns only values that were enqueued, none of them twice, and each one before
every value enqueued after its own enqueue had returned; and it returns without a value, while
no enqueue is in progress, only after every enqueued value. -/
theorem queue_is_faithful {labels : List (Label Producer Value)} {state : State Producer Value}
    (run : Run system labels state) (few : FewEnqueues labels)
    (distinct : (called labels).Nodup) :
    returned labels ⊆ called labels ∧ (returned labels).Nodup ∧
    (∀ (first second : Producer) (early late : Value) (front back : List (Label Producer Value)),
      [.enqueueReturn first early, .enqueueCall second late].Sublist labels →
      labels = front ++ .dequeueReturn (some late) :: back →
      .dequeueReturn (some early) ∈ front) ∧
    (∀ (front middle : List (Label Producer Value)) (source : State Producer Value),
      labels = front ++ .dequeueCall :: (middle ++ [Label.dequeueReturn none]) →
      Run system front source → Quiet source → (∀ label ∈ middle, label = .consumer) →
      Steps system source (.dequeueCall :: (middle ++ [Label.dequeueReturn none])) state →
      called front ⊆ returned front) := by
  refine ⟨(returned_called run few distinct).1, (returned_called run few distinct).2,
    fun _ _ _ _ _ _ ordered whole => returned_in_order run few distinct ordered whole, ?_⟩
  intro front middle source whole before quiet consumes steps
  rw [whole] at few
  exact quiet_answer before quiet consumes steps few.of_append

end Answer

namespace Sample

/-- One producer claims the first slot and stops; the other enqueues 11 behind it, and dequeue takes
11 while it calls the enqueue of 12; then the first producer goes on, and 10 and 12 are dequeued. -/
def overlapping : List (Label Bool Nat) :=
  List.flatten [[.enqueueCall false 10, .producer false, .enqueueCall true 11],
    List.replicate 6 (.producer true), [.enqueueReturn true 11, .enqueueCall true 12, .dequeueCall],
    List.replicate 10 .consumer, [.dequeueReturn (some 11)], List.replicate 5 (.producer false),
    [.enqueueReturn false 10], List.replicate 6 (.producer true),
    [.enqueueReturn true 12, .dequeueCall], List.replicate 4 .consumer,
    [.dequeueReturn (some 10), .dequeueCall], List.replicate 5 .consumer,
    [.dequeueReturn (some 12)]]

/-- The next dequeue finds the queue empty. -/
def exhausted : List (Label Bool Nat) :=
  .dequeueCall :: (List.replicate 3 Label.consumer ++ [Label.dequeueReturn none])

/-- The state before that dequeue. -/
def settled : State Bool Nat :=
  (execute (fun _ _ => True) .start overlapping).get (by decide +kernel)

theorem overlapping_run : Run system overlapping settled := by
  have executes : (execute (fun _ _ => True) .start overlapping).isSome = true := by
    decide +kernel
  have steps : Steps system .start overlapping settled :=
    (steps_of_execute (Option.some_get executes).symm).of_restrict
  have whole : Run system ([] ++ overlapping) settled := Run.append (.start rfl) steps
  exact whole

theorem exhausted_steps : ∃ state, Steps system settled exhausted state := by
  have executes : (execute (fun _ _ => True) settled exhausted).isSome = true := by
    decide +kernel
  exact ⟨_, (steps_of_execute (Option.some_get executes).symm).of_restrict⟩

theorem settled_quiet : Quiet settled := by
  intro producer
  cases producer with
  | false | true => decide +kernel

end Sample

/-- The producers overlap and 11 overtakes 10, but not 12, which is enqueued after it; and the last
answer is empty because all three have been returned. -/
theorem queue_is_faithful_sample :
    returned (Sample.overlapping ++ Sample.exhausted) = [11, 10, 12] ∧
      (returned (Sample.overlapping ++ Sample.exhausted)).Nodup ∧
      .dequeueReturn (some 11) ∈ Sample.overlapping ∧
      called Sample.overlapping ⊆ returned Sample.overlapping := by
  obtain ⟨state, steps⟩ := Sample.exhausted_steps
  obtain ⟨_, distinct, ordered, quiet⟩ :=
    queue_is_faithful (Sample.overlapping_run.append steps) (by decide) (by decide)
  refine ⟨rfl, distinct, ?_, ?_⟩
  · have before := ordered true true 11 12 (Sample.overlapping.take 48)
      Sample.exhausted (by decide) rfl
    exact List.mem_of_mem_take before
  · exact quiet Sample.overlapping (List.replicate 3 .consumer) Sample.settled rfl
      Sample.overlapping_run Sample.settled_quiet
      (fun label member => List.eq_of_mem_replicate member) steps

end MarketSandbox.MPSCQueue
