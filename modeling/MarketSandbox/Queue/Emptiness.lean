/-
This file settles when dequeue reports an empty queue. A filled slot that the
consumer has not passed at the start of a call stays ahead of every scan of that
call, so the call ends with a value, unless one of two exits is taken wrongly:
the comparison of the head with the tail modulo the size of a buffer, and the
fall through after the head slot has been filled between its two last reads.
-/

import MarketSandbox.Queue.Order

namespace MarketSandbox.MPSCQueue

open Transition

variable {Producer Value : Type} {state : State Producer Value} {view grown : View Value}
  {memory : Memory Value}

/-! ### The two wrong exits -/

/-- The consumer does not leave through the comparison with the tail unless the tail
stands at the head's own location, and does not fall through its last read of a head
slot that has been filled. -/
def NoWrongExit (state : State Producer Value) (label : Label Producer Value) : Prop :=
  label = .consumer →
    (state.consumer = .compareTail →
      state.memory.head state.memory.headOfQueue = state.memory.tail % bufferSize →
        state.memory.tail = bufferSize * state.memory.indexOf state.memory.headOfQueue +
          state.memory.head state.memory.headOfQueue) ∧
    (state.consumer = .readEmpty →
      state.memory.isSet state.memory.headOfQueue (state.memory.head state.memory.headOfQueue) ≠
        .SET)

instance [DecidableEq Producer] [DecidableEq Value] (state : State Producer Value)
    (label : Label Producer Value) : Decidable (NoWrongExit state label) :=
  inferInstanceAs (Decidable (_ → _ ∧ _))

/-! ### A filled slot ahead of the consumer -/

/-- The location is filled and has not been passed. -/
def View.Waiting (view : View Value) (location : Nat) : Prop :=
  view.slot location = .SET ∧ view.front ≤ location

/-- The location does not lie before an offset of the buffer. -/
def View.Ahead (view : View Value) (address : Address) (offset location : Nat) : Prop :=
  ∃ index < view.length, address = view.buffer index ∧ bufferSize * index + offset ≤ location

/-- A value has been taken, or the location is still ahead of the consumer. -/
def Caller.Finds (view : View Value) (location : Nat) : Caller Value → Prop
  | .taken _ => True
  | _ => view.Waiting location

/-- The call will not return without a value, as the location is still ahead. -/
def ConsumerPc.Finds (view : View Value) (location : Nat) : ConsumerPc Value → Prop
  | .idle => True
  | .moveTail caller => caller.Finds view location
  | .moveNext caller => caller.Finds view location
  | .collect caller _ => caller.Finds view location
  | .readHandled => view.Waiting location
  | .compareBuffer => view.Waiting location
  | .compareTail => view.Waiting location
  | .readSet => view.Waiting location
  | .readEmpty => view.Waiting location
  | .scan tempHeadOfQueue tempHead _ _ =>
    view.Waiting location ∧ view.Ahead tempHeadOfQueue tempHead location
  | .scanFlag tempHeadOfQueue tempHead _ _ =>
    view.Waiting location ∧ view.Ahead tempHeadOfQueue (tempHead + 1) location
  | .scanNext tempHeadOfQueue =>
    view.Waiting location ∧ view.Ahead tempHeadOfQueue bufferSize location
  | .foldTail tempHeadOfQueue =>
    view.Waiting location ∧ view.Ahead tempHeadOfQueue bufferSize location
  | .foldNext tempHeadOfQueue =>
    view.Waiting location ∧ view.Ahead tempHeadOfQueue bufferSize location
  | .foldPrev _ next _ => view.Waiting location ∧ view.Ahead next 0 location
  | .foldLink _ next _ => view.Waiting location ∧ view.Ahead next 0 location
  | .foldFree _ next => view.Waiting location ∧ view.Ahead next 0 location
  | .rescan _ _ _ _ => True
  | .returning (some _) => True
  | .returning none => False

/-! ### Steps of a producer -/

theorem View.Waiting.produce {location : Nat} (waiting : view.Waiting location)
    (produces : view.Produces grown) : grown.Waiting location := by
  refine ⟨?_, produces.front_eq ▸ waiting.2⟩
  rw [produces.slot _ (by rw [waiting.1]; exact SlotState.noConfusion), waiting.1]

theorem View.Ahead.grow {address : Address} {offset location : Nat}
    (ahead : view.Ahead address offset location) (grows : view.Grows grown) :
    grown.Ahead address offset location := by
  obtain ⟨index, bound, rfl, position⟩ := ahead
  exact ⟨index, bound.trans_le grows.length_le, (grows.buffer index bound).symm, position⟩

theorem Caller.Finds.produce {caller : Caller Value} {location : Nat}
    (finds : caller.Finds view location) (produces : view.Produces grown) :
    caller.Finds grown location := by
  cases caller with
  | check => exact View.Waiting.produce finds produces
  | handled => exact View.Waiting.produce finds produces
  | taken => trivial

/-- A location ahead of the consumer stays ahead when producers take steps. -/
theorem ConsumerPc.Finds.produce {pc : ConsumerPc Value} {location : Nat}
    (finds : pc.Finds view location) (produces : view.Produces grown) :
    pc.Finds grown location := by
  have both {address : Address} {offset : Nat}
      (both : view.Waiting location ∧ view.Ahead address offset location) :
      grown.Waiting location ∧ grown.Ahead address offset location :=
    ⟨both.1.produce produces, both.2.grow produces.toGrows⟩
  cases pc with
  | idle => trivial
  | moveTail => exact Caller.Finds.produce finds produces
  | moveNext => exact Caller.Finds.produce finds produces
  | collect => exact Caller.Finds.produce finds produces
  | readHandled => exact View.Waiting.produce finds produces
  | compareBuffer => exact View.Waiting.produce finds produces
  | compareTail => exact View.Waiting.produce finds produces
  | readSet => exact View.Waiting.produce finds produces
  | readEmpty => exact View.Waiting.produce finds produces
  | rescan => trivial
  | returning result =>
    cases result with
    | none => exact finds.elim
    | some => trivial
  | _ => exact both finds

/-! ### Steps of the consumer -/

/-- Where a call of `moveToNextBuffer` goes on, the location is still ahead. -/
theorem Caller.Finds.goesOn {caller : Caller Value} {location : Nat}
    (finds : caller.Finds view location) : (resume memory caller true).Finds view location := by
  cases caller with
  | check =>
    rw [resume]
    split
    · exact finds
    · exact finds
  | handled => exact finds
  | taken => trivial

theorem Caller.Finds.moves {caller : Caller Value} {location : Nat}
    (finds : caller.Finds view location) :
    (moveToNextBuffer memory caller).Finds view location := by
  rw [moveToNextBuffer]
  split
  · exact finds
  · exact finds.goesOn

theorem finds_taken {location : Nat} (memory : Memory Value) (data : Value) :
    (moveToNextBuffer memory (.taken data)).Finds view location := by
  have found : (Caller.taken data).Finds view location := trivial
  exact found.moves

/-- No filled slot lies behind the buffer of the tail. -/
theorem View.WellFormed.not_behind_tail (wellFormed : view.WellFormed) {location : Nat}
    (waiting : view.Waiting location) : location < bufferSize * (view.tailIndex + 1) := by
  have written := wellFormed.written location (by rw [waiting.1]; exact SlotState.noConfusion)
  simp only [bufferSize] at written ⊢
  omega

/-- A filled slot behind a buffer does not lie before the next one. -/
theorem View.WellFormed.ahead_next (wellFormed : view.WellFormed) {location index other : Nat}
    {before after : List Nat} (whole : view.live = before ++ index :: other :: after)
    (waiting : view.Waiting location) (behind : bufferSize * (index + 1) ≤ location) :
    view.Ahead (view.buffer other) 0 location := by
  refine ⟨other, wellFormed.live_lt other (by simp [whole]), rfl, ?_⟩
  by_contra before
  have handled := wellFormed.handled_between whole behind (Nat.not_le.mp before)
  exact SlotState.noConfusion (waiting.1.symm.trans handled)

section Consumer

variable (sound : Sound state view)
include sound

/-- A position ahead, in a buffer whose number is known. -/
theorem Sound.ahead_iff {index offset location : Nat} (bound : index < view.length) :
    view.Ahead (view.buffer index) offset location ↔ bufferSize * index + offset ≤ location := by
  constructor
  · rintro ⟨other, otherBound, same, position⟩
    rwa [sound.represents.buffer_injective bound otherBound same]
  · exact fun position => ⟨index, bound, rfl, position⟩

variable {after : Memory Value} {next : ConsumerPc Value} {location : Nat}

/-- The head buffer is the last one with a filled slot, and the head is at its end. -/
theorem Sound.finds_moveTail {caller : Caller Value}
    (holds : (ConsumerPc.moveTail caller).Holds view)
    (finds : (ConsumerPc.moveTail caller).Finds view location)
    (step : stepConsumer state.memory (.moveTail caller) = some (after, next)) :
    next.Finds view location := by
  have wellFormed := sound.wellFormed
  simp only [stepConsumer] at step
  split at step <;> cases step
  next last =>
    rw [sound.represents.headOfQueue, sound.represents.tailOfQueue_eq_iff wellFormed
      (wellFormed.live_lt _ wellFormed.head_mem)] at last
    have empty (waiting : view.Waiting location) : False := by
      have before := wellFormed.not_behind_tail waiting
      have behind := waiting.2
      rw [View.front, holds.2, last, ← Nat.mul_succ] at behind
      exact absurd before (Nat.not_lt.mpr behind)
    cases caller with
    | check => exact empty finds
    | handled => exact empty finds
    | taken => trivial
  next notLast => exact finds

theorem Sound.finds_moveNext {caller : Caller Value}
    (holds : (ConsumerPc.moveNext caller).Holds view)
    (finds : (ConsumerPc.moveNext caller).Finds view location)
    (step : stepConsumer state.memory (.moveNext caller) = some (after, next)) :
    next.Finds view location := by
  obtain ⟨_, _, _, found⟩ := sound.represents.next_of_head sound.wellFormed holds.2.2
  simp only [stepConsumer, found] at step
  cases step
  exact finds

/-- Where the head moves on to the next buffer, the location is still ahead. -/
theorem Sound.finds_moveHead {caller : Caller Value} {index : Nat} {behind : List Nat}
    (full : view.head = bufferSize) (whole : view.live = view.headIndex :: index :: behind)
    (finds : caller.Finds view location) : caller.Finds (view.moveHead index) location := by
  have bound := sound.wellFormed.live_lt index (by simp [whole])
  have waits (waiting : view.Waiting location) : (view.moveHead index).Waiting location := by
    have start : view.live = [] ++ view.headIndex :: index :: behind := whole
    have behindHead := waiting.2
    rw [View.front, full, ← Nat.mul_succ] at behindHead
    have ahead := sound.wellFormed.ahead_next start waiting behindHead
    exact ⟨waiting.1, (sound.ahead_iff bound).mp ahead⟩
  cases caller with
  | check => exact waits finds
  | handled => exact waits finds
  | taken => trivial

theorem Sound.finds_collect {caller : Caller Value} {behind : Address}
    (holds : (ConsumerPc.collect caller behind).Holds view)
    (finds : (ConsumerPc.collect caller behind).Finds view location)
    (step : stepConsumer state.memory (.collect caller behind) = some (after, next)) :
    next.Finds (view.observeConsumer state.memory (.collect caller behind)) location := by
  obtain ⟨_, full, _, index, rest, whole, rfl⟩ := holds
  have bound := sound.wellFormed.live_lt index (by simp [whole])
  have moved := sound.finds_moveHead full whole finds
  simp only [stepConsumer] at step
  rw [View.observeConsumer, sound.indexOf_eq bound]
  cases garbage : state.memory.garbageListHead with
  | none =>
    simp only [garbage] at step ⊢
    cases step
    exact moved.goesOn
  | some address =>
    simp only [garbage] at step ⊢
    split at step <;> cases step
    next older =>
      rw [if_pos older]
      exact finds
    next notOlder =>
      rw [if_neg notOlder]
      exact moved.goesOn

theorem Sound.finds_readHandled
    (holds : (ConsumerPc.readHandled : ConsumerPc Value).Holds view)
    (finds : (ConsumerPc.readHandled : ConsumerPc Value).Finds view location)
    (step : stepConsumer state.memory .readHandled = some (after, next)) :
    next.Finds (view.observeConsumer state.memory .readHandled) location := by
  have slot := sound.represents.front_slot sound.wellFormed holds.2
  simp only [stepConsumer, slot] at step
  simp only [View.observeConsumer, slot]
  split at step <;> cases step
  next handled =>
    rw [if_pos handled]
    have waits : view.advance.Waiting location := by
      refine ⟨finds.1, lt_of_le_of_ne finds.2 ?_⟩
      rintro rfl
      exact SlotState.noConfusion (finds.1.symm.trans handled)
    have callerFinds : (Caller.handled : Caller Value).Finds view.advance location := waits
    exact callerFinds.moves
  next notHandled =>
    rw [if_neg notHandled]
    exact finds

omit sound in
theorem finds_compareBuffer
    (finds : (ConsumerPc.compareBuffer : ConsumerPc Value).Finds view location)
    (step : stepConsumer memory .compareBuffer = some (after, next)) :
    next.Finds view location := by
  simp only [stepConsumer] at step
  split at step <;> cases step <;> exact finds

/-- The tail stands at the head's location, behind which nothing has been claimed. -/
theorem Sound.finds_compareTail
    (finds : (ConsumerPc.compareTail : ConsumerPc Value).Finds view location)
    (rightly : state.memory.head state.memory.headOfQueue = state.memory.tail % bufferSize →
      state.memory.tail = bufferSize * state.memory.indexOf state.memory.headOfQueue +
        state.memory.head state.memory.headOfQueue)
    (step : stepConsumer state.memory .compareTail = some (after, next)) :
    next.Finds view location := by
  simp only [stepConsumer] at step
  split at step <;> cases step
  next equal =>
    have tail := rightly equal
    have headBound := sound.wellFormed.live_lt _ sound.wellFormed.head_mem
    rw [sound.represents.head_eq, sound.represents.tail, sound.represents.headOfQueue,
      sound.indexOf_eq headBound] at tail
    have claimed := sound.wellFormed.claimed (by rw [finds.1]; exact SlotState.noConfusion)
    rw [tail] at claimed
    exact absurd claimed (Nat.not_lt.mpr finds.2)
  next notEqual => exact finds

omit sound in
theorem finds_readSet (finds : (ConsumerPc.readSet : ConsumerPc Value).Finds view location)
    (step : stepConsumer memory .readSet = some (after, next)) :
    next.Finds (view.observeConsumer memory .readSet) location := by
  simp only [stepConsumer] at step
  rw [View.observeConsumer]
  split at step <;> cases step
  next set =>
    rw [if_pos set]
    exact finds_taken _ _
  next notSet =>
    rw [if_neg notSet]
    exact finds

/-- The head slot has neither been handled nor filled, so it is empty. -/
theorem Sound.finds_readEmpty (holds : (ConsumerPc.readEmpty : ConsumerPc Value).Holds view)
    (finds : (ConsumerPc.readEmpty : ConsumerPc Value).Finds view location)
    (notSet : state.memory.isSet state.memory.headOfQueue
      (state.memory.head state.memory.headOfQueue) ≠ .SET)
    (step : stepConsumer state.memory .readEmpty = some (after, next)) :
    next.Finds view location := by
  obtain ⟨_, inside, notHandled⟩ := holds
  have slot := sound.represents.front_slot sound.wellFormed inside
  have headBound := sound.wellFormed.live_lt _ sound.wellFormed.head_mem
  simp only [stepConsumer] at step
  split at step <;> cases step
  next empty =>
    refine ⟨finds, ?_⟩
    rw [sound.represents.headOfQueue, sound.ahead_iff headBound, sound.represents.head]
    exact finds.2
  next notEmpty =>
    rw [slot] at notSet notEmpty
    cases front : view.slot view.front with
    | EMPTY => exact absurd front notEmpty
    | SET => exact absurd front notSet
    | HANDLED => exact absurd front notHandled

theorem Sound.finds_scan {tempHeadOfQueue : Address} {tempHead : Nat} {moved allHandled : Bool}
    (holds : (ConsumerPc.scan tempHeadOfQueue tempHead moved allHandled :
      ConsumerPc Value).Holds view)
    (finds : (ConsumerPc.scan tempHeadOfQueue tempHead moved allHandled :
      ConsumerPc Value).Finds view location)
    (step : stepConsumer state.memory (.scan tempHeadOfQueue tempHead moved allHandled) =
      some (after, next)) :
    next.Finds view location := by
  obtain ⟨_, _, index, scanning⟩ := holds
  have bound := sound.wellFormed.live_lt index scanning.member
  have slot := sound.represents.slot index bound tempHead scanning.inside
  rw [← scanning.address] at slot
  simp only [stepConsumer, slot] at step
  split at step <;> cases step
  next set => trivial
  next notSet =>
    obtain ⟨waiting, ahead⟩ := finds
    refine ⟨waiting, ?_⟩
    rw [scanning.address, sound.ahead_iff bound] at ahead ⊢
    refine lt_of_le_of_ne ahead fun same => notSet ?_
    rw [same]
    exact waiting.1

omit sound in
theorem finds_scanFlag {tempHeadOfQueue : Address} {tempHead : Nat} {moved allHandled : Bool}
    (holds : (ConsumerPc.scanFlag tempHeadOfQueue tempHead moved allHandled :
      ConsumerPc Value).Holds view)
    (finds : (ConsumerPc.scanFlag tempHeadOfQueue tempHead moved allHandled :
      ConsumerPc Value).Finds view location)
    (step : stepConsumer memory (.scanFlag tempHeadOfQueue tempHead moved allHandled) =
      some (after, next)) :
    next.Finds view location := by
  obtain ⟨_, _, index, scanning⟩ := holds
  have inside := scanning.inside
  simp only [stepConsumer] at step
  split at step
  next ended =>
    have last : tempHead + 1 = bufferSize := by omega
    rw [ConsumerPc.Finds, last] at finds
    split at step <;> cases step <;> exact finds
  next more =>
    cases step
    exact finds

/-- The scan does not end at the last buffer, which lies behind the location. -/
theorem Sound.finds_scanNext {tempHeadOfQueue : Address}
    (holds : (ConsumerPc.scanNext tempHeadOfQueue : ConsumerPc Value).Holds view)
    (finds : (ConsumerPc.scanNext tempHeadOfQueue : ConsumerPc Value).Finds view location)
    (step : stepConsumer state.memory (.scanNext tempHeadOfQueue) = some (after, next)) :
    next.Finds view location := by
  obtain ⟨_, _, index, member, rfl⟩ := holds
  obtain ⟨waiting, ahead⟩ := finds
  have wellFormed := sound.wellFormed
  rw [sound.ahead_iff (wellFormed.live_lt index member), ← Nat.mul_succ] at ahead
  have notLast : index + 1 ≠ view.length := by
    intro last
    have before := wellFormed.not_behind_tail waiting
    have tailBound := wellFormed.tail_lt
    simp only [bufferSize] at before ahead
    omega
  obtain ⟨before, other, behind, whole, found⟩ :=
    sound.represents.next_of_live wellFormed member notLast
  obtain ⟨otherMember, notHead, _⟩ := sound.follower whole
  simp only [stepConsumer, found] at step
  cases step
  rw [sound.represents.head_of_live wellFormed otherMember notHead]
  exact ⟨waiting, wellFormed.ahead_next whole waiting ahead⟩

/-- The folding does not end at the tail's buffer, which lies behind the location. -/
theorem Sound.finds_foldTail {tempHeadOfQueue : Address}
    (holds : (ConsumerPc.foldTail tempHeadOfQueue : ConsumerPc Value).Holds view)
    (finds : (ConsumerPc.foldTail tempHeadOfQueue : ConsumerPc Value).Finds view location)
    (step : stepConsumer state.memory (.foldTail tempHeadOfQueue) = some (after, next)) :
    next.Finds view location := by
  obtain ⟨_, _, index, foldable⟩ := holds
  obtain ⟨waiting, ahead⟩ := finds
  have bound := sound.wellFormed.live_lt index foldable.1
  simp only [stepConsumer] at step
  split at step <;> cases step
  next last =>
    rw [foldable.2.1, sound.represents.tailOfQueue_eq_iff sound.wellFormed bound] at last
    rw [foldable.2.1, sound.ahead_iff bound, ← Nat.mul_succ, last] at ahead
    exact absurd (sound.wellFormed.not_behind_tail waiting) (Nat.not_lt.mpr ahead)
  next notLast => exact ⟨waiting, ahead⟩

theorem Sound.finds_foldNext {tempHeadOfQueue : Address}
    (holds : (ConsumerPc.foldNext tempHeadOfQueue : ConsumerPc Value).Holds view)
    (finds : (ConsumerPc.foldNext tempHeadOfQueue : ConsumerPc Value).Finds view location)
    (step : stepConsumer state.memory (.foldNext tempHeadOfQueue) = some (after, next)) :
    next.Finds view location := by
  obtain ⟨same, _, index, tailBound, foldable⟩ := holds
  obtain ⟨waiting, ahead⟩ := finds
  obtain ⟨following, found, folding⟩ := sound.foldNext tailBound foldable same
  simp only [stepConsumer, found] at step
  cases step
  obtain ⟨_, _, before, first, last, behind, whole, _, rfl, _⟩ := folding
  rw [foldable.2.1, sound.ahead_iff (sound.wellFormed.live_lt index foldable.1),
    ← Nat.mul_succ] at ahead
  have shifted : view.live = (before ++ [first]) ++ index :: last :: behind := by simp [whole]
  exact ⟨waiting, sound.wellFormed.ahead_next shifted waiting ahead⟩

theorem Sound.finds_foldFree {tempHeadOfQueue behind : Address}
    (holds : (ConsumerPc.foldFree tempHeadOfQueue behind : ConsumerPc Value).Holds view)
    (finds : (ConsumerPc.foldFree tempHeadOfQueue behind : ConsumerPc Value).Finds view location)
    (step : stepConsumer state.memory (.foldFree tempHeadOfQueue behind) = some (after, next)) :
    next.Finds view location := by
  obtain ⟨_, _, _, _, _, _, _, last, member, notHead, rfl⟩ := holds
  simp only [stepConsumer] at step
  cases step
  rw [sound.represents.head_of_live sound.wellFormed member notHead]
  exact finds

omit sound in
/-- The second scan ends with a value. -/
theorem finds_rescan {tempHeadOfQueue scanHeadOfQueue : Address} {tempHead scanHead : Nat}
    (step : stepConsumer memory (.rescan tempHeadOfQueue tempHead scanHeadOfQueue scanHead) =
      some (after, next)) :
    next.Finds (view.observeConsumer memory
      (.rescan tempHeadOfQueue tempHead scanHeadOfQueue scanHead)) location := by
  simp only [stepConsumer] at step
  split at step
  · split at step <;> cases step
    · exact finds_taken _ _
    · trivial
  · split at step
    · split at step <;> cases step
      trivial
    · split at step <;> cases step <;> trivial

/-- The consumer's next access finds the location still ahead. -/
theorem Sound.consumer_finds (finds : state.consumer.Finds view location)
    (rightly : NoWrongExit state .consumer)
    (step : stepConsumer state.memory state.consumer = some (after, next)) :
    next.Finds (view.observeConsumer state.memory state.consumer) location := by
  have holds := sound.consumer
  have atTail := (rightly rfl).1
  have notSet := (rightly rfl).2
  generalize state.consumer = pc at holds atTail notSet finds step ⊢
  cases pc with
  | idle => simp only [stepConsumer, reduceCtorEq] at step
  | moveTail caller => exact sound.finds_moveTail holds finds step
  | moveNext caller => exact sound.finds_moveNext holds finds step
  | collect caller behind => exact sound.finds_collect holds finds step
  | readHandled => exact sound.finds_readHandled holds finds step
  | compareBuffer => exact finds_compareBuffer finds step
  | compareTail => exact sound.finds_compareTail finds (atTail rfl) step
  | readSet => exact finds_readSet finds step
  | readEmpty => exact sound.finds_readEmpty holds finds (notSet rfl) step
  | scan => exact sound.finds_scan holds finds step
  | scanFlag => exact finds_scanFlag holds finds step
  | scanNext => exact sound.finds_scanNext holds finds step
  | foldTail => exact sound.finds_foldTail holds finds step
  | foldNext => exact sound.finds_foldNext holds finds step
  | foldPrev tempHeadOfQueue behind prev =>
    cases step
    exact finds
  | foldLink tempHeadOfQueue behind prev =>
    simp only [stepConsumer] at step
    split at step <;> cases step
    exact finds
  | foldFree => exact sound.finds_foldFree holds finds step
  | rescan => exact finds_rescan step
  | returning => simp only [stepConsumer, reduceCtorEq] at step

end Consumer

/-- Every step during a call finds the location still ahead. -/
theorem Sound.finds_step [DecidableEq Producer] [DecidableEq Value]
    {label : Label Producer Value} {target : State Producer Value} {location : Nat}
    (sound : Sound state view) (small : view.Small) (rightly : NoWrongExit state label)
    (noCall : label ≠ .dequeueCall) (step : perform state label = some target)
    (finds : state.consumer.Finds view location) :
    target.consumer.Finds (view.observe state label) location := by
  cases label with
  | enqueueCall producer data =>
    cases pc : state.producers producer <;> simp only [perform, pc, reduceCtorEq] at step
    obtain rfl := Option.some_inj.mp step
    exact finds
  | enqueueReturn producer data =>
    simp only [perform] at step
    split at step <;> cases step
    exact finds
  | dequeueCall => exact absurd rfl noCall
  | dequeueReturn result =>
    simp only [perform] at step
    split at step <;> cases step
    trivial
  | producer producer =>
    have fits := small.fits sound.wellFormed
    have produces := (sound.perform_producer (fun _ _ => fits.1) fits.2 step).2
    simp only [perform] at step
    split at step <;> cases step
    exact finds.produce produces
  | consumer =>
    cases next : stepConsumer state.memory state.consumer with
    | none => simp only [perform, next, reduceCtorEq] at step
    | some result =>
      simp only [perform, next, Option.some.injEq] at step
      subst step
      exact sound.consumer_finds finds rightly next

/-! ### What an empty answer says -/

/-- Whenever a call of dequeue returns without a value, there was a moment during the call
at which every value whose enqueue had returned had been dequeued. -/
def EmptyAnswersTrue (labels : List (Label Producer Value)) : Prop :=
  ∀ front middle back : List (Label Producer Value),
    labels = front ++ .dequeueCall :: (middle ++ .dequeueReturn none :: back) →
    (∀ label ∈ middle, label ≠ .dequeueCall) →
      ∃ before after, middle = before ++ after ∧
        ∀ producer data, .enqueueReturn producer data ∈ front ++ .dequeueCall :: before →
          data ∈ returned (front ++ .dequeueCall :: before)

/-- Where no filled slot is waiting, every filled slot's ticket has been delivered. -/
theorem Sound.ticket_of_not_waiting (sound : Sound state view)
    (nothing : ∀ location, ¬ view.Waiting location) {location : Nat}
    (filled : view.slot location ≠ .EMPTY) : location ∈ view.channel.delivered := by
  refine (sound.wellFormed.delivered location).mpr ?_
  rcases Nat.lt_or_ge location view.front with passed | behind
  · exact Or.inl passed
  · right
    cases slot : view.slot location with
    | EMPTY => exact absurd slot filled
    | SET => exact absurd ⟨slot, behind⟩ (nothing location)
    | HANDLED => rfl

/-- Where no filled slot is waiting, every finished value has been delivered. -/
theorem Sound.delivered_of_not_waiting (sound : Sound state view)
    (nothing : ∀ location, ¬ view.Waiting location) {data : Value} (finished : view.Finished data) :
    data ∈ view.channel.values := by
  obtain ⟨location, filled, found⟩ := finished
  exact TicketChannel.mem_values (sound.ticket_of_not_waiting nothing filled) found

section Answers

variable [DecidableEq Producer] [DecidableEq Value] {target : State Producer Value}

/-- A call starts with the waiting location ahead. -/
theorem finds_call {location : Nat} (waiting : view.Waiting location)
    (step : perform state .dequeueCall = some target) :
    target.consumer.Finds (view.observe state .dequeueCall) location := by
  cases pc : state.consumer <;> simp only [perform, pc, reduceCtorEq] at step
  obtain rfl := Option.some_inj.mp step
  have callerFinds : (Caller.check : Caller Value).Finds view location := waiting
  exact callerFinds.goesOn

/-- A call does not return without a value while a location is ahead. -/
theorem not_finds_answer {location : Nat}
    (step : perform state (.dequeueReturn none) = some target) :
    ¬ state.consumer.Finds view location := by
  intro finds
  simp only [perform] at step
  split at step
  next answer =>
    rw [answer] at finds
    exact finds
  next => cases step

/-- The consumer is outside dequeue when it calls it. -/
theorem inTransit_of_call (step : perform state .dequeueCall = some target) :
    state.consumer.inTransit = [] := by
  cases pc : state.consumer <;> simp only [perform, pc, reduceCtorEq] at step
  rfl

variable [Inhabited Value]

/-- In every run that takes neither exit wrongly, dequeue reports an empty queue only where
it was empty. -/
theorem empty_answers_true {labels : List (Label Producer Value)}
    (run : Run (system.restrict NoWrongExit) labels state) (few : FewEnqueues labels) :
    EmptyAnswersTrue labels := by
  rintro front middle back rfl noCall
  refine ⟨[], middle, rfl, fun producer data member => ?_⟩
  obtain ⟨view, observedRun⟩ := run.withHistory_restrict View.initial View.observe
  obtain ⟨⟨before, beforeView⟩, frontRun, steps⟩ := observedRun.split
  have frontRun := frontRun.of_restrict
  have frontFew := few.of_append
  have sound : Sound before beforeView := observed_sound frontRun frontFew
  have tickets : Tickets front before beforeView := observed_tickets frontRun frontFew
  cases steps with
  | @cons _ called _ _ _ call rest =>
    obtain ⟨last, during, finish⟩ := rest.split
    cases finish with
    | cons answer _ =>
      -- a location waiting before the call would be ahead at its end
      have nothing (location : Nat) : ¬ beforeView.Waiting location := by
        intro waiting
        have start : called.1.consumer.Finds called.2 location := by
          rw [call.2.2]
          exact finds_call waiting call.2.1
        have whole : FewEnqueues (front ++ [Label.dequeueCall] ++ middle) := by
          refine @FewEnqueues.of_append _ _ _ (.dequeueReturn none :: back) ?_
          simpa using few
        refine not_finds_answer answer.2.1
          (Run.preserve FewEnqueues (fun pair => pair.1.consumer.Finds pair.2 location)
            (fun _ _ => FewEnqueues.of_append) ?_ (frontRun.next call.2) during whole start)
        rintro labels ⟨source, sourceView⟩ label ⟨target, targetView⟩ prior few member rightly
          finds ⟨step, rfl⟩
        exact (observed_sound prior few.of_append).finds_step
          ((callsAccounted prior).small few.of_append) rightly (noCall label member) step finds
      have finished : beforeView.Finished data := by
        refine tickets.finished producer data ?_
        simpa using member
      have delivered := sound.delivered_of_not_waiting nothing finished
      rw [tickets.values, inTransit_of_call call.2.1, List.append_nil] at delivered
      rw [returned_append]
      exact List.mem_append_left _ delivered

end Answers

namespace Sample

/-- A producer claims the first location and stalls; another one enqueues the value 11. -/
def stalled : List (Label Bool Nat) :=
  List.flatten [[.enqueueCall false 10, .producer false, .enqueueCall true 11],
    List.replicate 6 (.producer true), [.enqueueReturn true 11]]

/-- Dequeue reads the empty head slot; the stalled producer fills it; dequeue reads it once
more and falls through. -/
def fallThrough : List (Label Bool Nat) :=
  List.flatten [List.replicate 4 .consumer, List.replicate 5 (.producer false), [.consumer]]

end Sample

/-- The call returns without a value though the value 11 was enqueued before it. -/
theorem empty_answer_wrong : ∃ labels : List (Label Bool Nat),
    (∃ state, Run system labels state) ∧ FewEnqueues labels ∧ ¬ EmptyAnswersTrue labels := by
  refine ⟨Sample.stalled ++ .dequeueCall :: (Sample.fallThrough ++ [Label.dequeueReturn none]), ?_,
    by decide, ?_⟩
  · obtain ⟨state, run⟩ := @run_of_execute _ _ _ _ _ (fun _ _ => True) _
      (Sample.stalled ++ .dequeueCall :: (Sample.fallThrough ++ [Label.dequeueReturn none]))
      (by decide +kernel)
    exact ⟨state, run.of_restrict⟩
  · intro truthful
    obtain ⟨before, after, split, dequeued⟩ :=
      truthful Sample.stalled Sample.fallThrough [] rfl (by decide)
    have returnedIt := dequeued true 11 (List.mem_append_left _ (by decide))
    -- nothing has been returned at any moment of the call
    have member := mem_returned.mp returnedIt
    have whole : Label.dequeueReturn (some 11) ∈
        Sample.stalled ++ .dequeueCall :: Sample.fallThrough := by
      rw [split]
      rcases List.mem_append.mp member with member | member
      · exact List.mem_append_left _ member
      · rw [← List.cons_append]
        exact List.mem_append_right _ (List.mem_append_left _ member)
    exact absurd whole (by decide)

namespace Sample

/-- The value 11 is enqueued and dequeued, and then the queue is reported empty. -/
def drained : List (Label Bool Nat) :=
  List.flatten [[.enqueueCall true 11], List.replicate 6 (.producer true),
    [.enqueueReturn true 11, .dequeueCall], List.replicate 4 .consumer,
    [.dequeueReturn (some 11), .dequeueCall], List.replicate 3 .consumer, [.dequeueReturn none]]

end Sample

theorem empty_answers_true_sample : EmptyAnswersTrue Sample.drained := by
  obtain ⟨state, run⟩ := @run_of_execute _ _ _ _ _ NoWrongExit _ Sample.drained
    (by decide +kernel)
  exact empty_answers_true run (by decide)

end MarketSandbox.MPSCQueue
