/-
This file is about an operation of the queue that runs alone, and about what
holds between its accesses: no value has been taken behind the head, so that
nothing is folded, and the buffers from the head on are there and linked one
after another. An operation is followed access by access, each of which must
touch a slot that is there.
-/

import MarketSandbox.Queue.Quiescence

namespace MarketSandbox.MPSCQueue

open Transition

variable {Value : Type}

/-! ### Operations that run alone -/

/-- The index lies in the array of slots of a buffer that is still there. -/
def Memory.HasSlot (memory : Memory Value) (buffer : Address) (index : Nat) : Prop :=
  index < bufferSize ∧ memory.freed buffer = false ∧ memory.deleted buffer = false

/-- The slot that a producer touches next is there. -/
def ProducerPc.Inside (memory : Memory Value) : ProducerPc Value → Prop
  | .loadSlot _ location prevSize tempTail _ | .publish _ location prevSize tempTail _ =>
    prevSize ≤ location ∧ memory.HasSlot tempTail (location - prevSize)
  | _ => True

/-- The slot that the consumer touches next is there. -/
def ConsumerPc.Inside (memory : Memory Value) : ConsumerPc Value → Prop
  | .readHandled | .readSet | .readEmpty =>
    memory.HasSlot memory.headOfQueue (memory.head memory.headOfQueue)
  | .scan tempHeadOfQueue tempHead _ _ | .scanFlag tempHeadOfQueue tempHead _ _ =>
    memory.HasSlot tempHeadOfQueue tempHead
  | .rescan tempHeadOfQueue tempHead scanHeadOfQueue scanHead =>
    if scanHeadOfQueue = tempHeadOfQueue ∧ tempHead ≤ scanHead then
      memory.HasSlot tempHeadOfQueue tempHead
    else scanHead < bufferSize → memory.HasSlot scanHeadOfQueue scanHead
  | _ => True

/-- An access of a producer, to a slot that is there. -/
def EnqueueAccess (source target : Memory Value × ProducerPc Value) : Prop :=
  source.2.Inside source.1 ∧ stepProducer source.1 source.2 = some target

/-- An access of the consumer, to a slot that is there. -/
def DequeueAccess (source target : Memory Value × ConsumerPc Value) : Prop :=
  source.2.Inside source.1 ∧ stepConsumer source.1 source.2 = some target

/-- A call of enqueue that runs alone returns. -/
def Enqueues (memory : Memory Value) (data : Value) (last : Memory Value) : Prop :=
  Relation.ReflTransGen EnqueueAccess (memory, .claim data) (last, .returning data)

/-- A call of dequeue that runs alone returns an answer. -/
def Dequeues (memory : Memory Value) (answer : Option Value) (last : Memory Value) : Prop :=
  Relation.ReflTransGen DequeueAccess (memory, resume memory .check true) (last, .returning answer)

/-- A call. -/
inductive Call (Value : Type) where
  | enqueue (data : Value)
  | dequeue
  deriving DecidableEq, Repr

/-- Calls made one after another return, with these answers of dequeue. -/
inductive Performs : Memory Value → List (Call Value) → List (Option Value) → Memory Value → Prop
  | nil (memory : Memory Value) : Performs memory [] [] memory
  | enqueue {memory next last : Memory Value} {data : Value} {calls : List (Call Value)}
      {answers : List (Option Value)} (first : Enqueues memory data next)
      (rest : Performs next calls answers last) :
      Performs memory (.enqueue data :: calls) answers last
  | dequeue {memory next last : Memory Value} {answer : Option Value} {calls : List (Call Value)}
      {answers : List (Option Value)} (first : Dequeues memory answer next)
      (rest : Performs next calls answers last) :
      Performs memory (.dequeue :: calls) (answer :: answers) last

/-- The answers of a list used as a queue. -/
def fifo : List Value → List (Call Value) → List (Option Value)
  | _, [] => []
  | values, .enqueue data :: calls => fifo (values ++ [data]) calls
  | values, .dequeue :: calls => values.head? :: fifo values.tail calls

/-- The values enqueued by calls. -/
def enqueued (calls : List (Call Value)) : List Value :=
  calls.filterMap fun
    | .enqueue data => some data
    | .dequeue => none

/-! ### An operation that runs alone does one thing -/

theorem enqueueAccess_unique : Relator.RightUnique (@EnqueueAccess Value) :=
  fun _ _ _ one other => Option.some_inj.mp (one.2.symm.trans other.2)

theorem dequeueAccess_unique : Relator.RightUnique (@DequeueAccess Value) :=
  fun _ _ _ one other => Option.some_inj.mp (one.2.symm.trans other.2)

theorem returning_enqueue (memory : Memory Value) (data : Value)
    (target : Memory Value × ProducerPc Value) :
    ¬ EnqueueAccess (memory, .returning data) target :=
  fun access => Option.some_ne_none target access.2.symm

theorem returning_dequeue (memory : Memory Value) (answer : Option Value)
    (target : Memory Value × ConsumerPc Value) :
    ¬ DequeueAccess (memory, .returning answer) target :=
  fun access => Option.some_ne_none target access.2.symm

theorem Enqueues.unique {memory first second : Memory Value} {data : Value}
    (one : Enqueues memory data first) (other : Enqueues memory data second) : first = second :=
  congrArg Prod.fst (eq_of_final enqueueAccess_unique (returning_enqueue first data)
    (returning_enqueue second data) one other)

theorem Dequeues.unique {memory first second : Memory Value} {left right : Option Value}
    (one : Dequeues memory left first) (other : Dequeues memory right second) :
    left = right ∧ first = second := by
  have same := eq_of_final dequeueAccess_unique (returning_dequeue first left)
    (returning_dequeue second right) one other
  exact ⟨ConsumerPc.returning.inj (congrArg Prod.snd same), congrArg Prod.fst same⟩

theorem Performs.unique {memory first second : Memory Value} {calls : List (Call Value)}
    {left right : List (Option Value)} (one : Performs memory calls left first)
    (other : Performs memory calls right second) : left = right ∧ first = second := by
  induction one generalizing right with
  | nil =>
    cases other with
    | nil => exact ⟨rfl, rfl⟩
  | enqueue head _ inductionHypothesis =>
    cases other with
    | enqueue also rest =>
      obtain rfl := head.unique also
      exact inductionHypothesis rest
  | dequeue head _ inductionHypothesis =>
    cases other with
    | dequeue also rest =>
      obtain ⟨rfl, rfl⟩ := head.unique also
      obtain ⟨rfl, rfl⟩ := inductionHypothesis rest
      exact ⟨rfl, rfl⟩

/-! ### The queue between the accesses of one thread -/

/-- What holds between the accesses of an operation that runs alone: beside what holds in every
run, no value has been taken behind the head, nothing is left over from a fold, and the buffers
from the head on are there. -/
structure Solo (memory : Memory Value) (producer : ProducerPc Value) (consumer : ConsumerPc Value)
    (view : View Value) : Prop where
  sound : Sound (⟨memory, fun _ => producer, consumer⟩ : State Unit Value) view
  attended : Attended (fun _ : Unit => producer) view
  unhandled : ∀ location, view.slot location ≠ .HANDLED
  noGarbage : memory.garbageListHead = none
  unfreed : ∀ address, memory.freed address = false
  undeleted : ∀ index, view.headIndex ≤ index → index < view.length →
    memory.deleted (view.buffer index) = false
  unallocated : ∀ address, memory.allocated ≤ address → memory.deleted address = false
  links : ∀ index, index + 1 < view.length →
    memory.next (view.buffer index) = some (view.buffer (index + 1))

theorem Solo.start [Inhabited Value] :
    Solo (Memory.construct : Memory Value) .idle .idle .initial where
  sound := .start
  attended := ⟨nofun, nofun, fun _ _ filled => absurd rfl filled⟩
  unhandled _ := nofun
  noGarbage := rfl
  unfreed _ := rfl
  undeleted _ _ _ := rfl
  unallocated _ _ := rfl
  links index bound := absurd (Nat.lt_of_succ_lt_succ bound) (Nat.not_lt_zero index)

section Parts

variable {memory : Memory Value} {producer : ProducerPc Value} {consumer : ConsumerPc Value}
  {view : View Value} (solo : Solo memory producer consumer view)
include solo

theorem Solo.wellFormed : view.WellFormed := solo.sound.wellFormed

theorem Solo.represents : Represents memory view := solo.sound.represents

theorem Solo.numberOfElements_eq {index : Nat} (fits : view.Fits) (bound : index ≤ view.tailIndex) :
    numberOfElements (memory.positionInQueue (view.buffer index)) = bufferSize * (index + 1) ∧
      prevSize (memory.positionInQueue (view.buffer index)) = bufferSize * index :=
  solo.sound.numberOfElements_eq fits.2 bound

theorem Solo.walk_back {index location : Nat} (bound : index ≤ view.tailIndex)
    (empty : view.slot location = .EMPTY) (before : location < bufferSize * index) :
    ∃ lower < index, memory.prev (view.buffer index) = some (view.buffer lower) ∧
      location / bufferSize ≤ lower :=
  solo.sound.walk_back bound empty before

end Parts

/-- A producer neither frees nor deletes anything. -/
theorem stepProducer_keeps {memory next : Memory Value} {pc nextPc : ProducerPc Value}
    (step : stepProducer memory pc = some (next, nextPc)) :
    next.garbageListHead = memory.garbageListHead ∧ next.freed = memory.freed ∧
      next.deleted = memory.deleted ∧ memory.allocated ≤ next.allocated := by
  cases pc with
  | exchangeTail =>
    simp only [stepProducer, Memory.exchangeTail] at step
    split at step <;> cases step <;> exact ⟨rfl, rfl, rfl, le_rfl⟩
  | preallocateTail =>
    simp only [stepProducer, Memory.exchangeTail] at step
    split at step <;> cases step <;> exact ⟨rfl, rfl, rfl, le_rfl⟩
  | exchangeNext =>
    simp only [stepProducer] at step
    split at step <;> cases step
    · exact ⟨rfl, rfl, rfl, Nat.le_succ _⟩
    · exact ⟨rfl, rfl, rfl, le_rfl⟩
  | preallocateNext =>
    simp only [stepProducer] at step
    split at step <;> cases step
    · exact ⟨rfl, rfl, rfl, Nat.le_succ _⟩
    · exact ⟨rfl, rfl, rfl, le_rfl⟩
  | walk =>
    simp only [stepProducer] at step
    repeat' split at step
    all_goals cases step
    all_goals exact ⟨rfl, rfl, rfl, le_rfl⟩
  | _ =>
    simp only [stepProducer] at step
    repeat' split at step
    all_goals cases step
    all_goals exact ⟨rfl, rfl, rfl, le_rfl⟩

/-- A buffer that a producer appends is a new one. -/
theorem observeProducer_appended {view : View Value} {memory : Memory Value}
    {pc : ProducerPc Value} {index : Nat} (new : view.length ≤ index)
    (bound : index < (view.observeProducer memory pc).length) :
    (view.observeProducer memory pc).buffer index = memory.allocated := by
  have link (tempTail : Address) (bound : index < (view.observeLink memory tempTail).length) :
      (view.observeLink memory tempTail).buffer index = memory.allocated := by
    unfold View.observeLink at bound ⊢
    split_ifs at bound ⊢
    · obtain rfl : index = view.length := Nat.le_antisymm (Nat.lt_succ_iff.mp bound) new
      exact Function.update_self ..
    · exact absurd bound (Nat.not_lt.mpr new)
  cases pc with
  | exchangeNext data location tempTail =>
    simp only [View.observeProducer] at bound ⊢
    split_ifs at bound ⊢
    · exact link tempTail bound
    · exact absurd bound (Nat.not_lt.mpr new)
  | preallocateNext data tempTail =>
    simp only [View.observeProducer] at bound ⊢
    split_ifs at bound ⊢
    · exact link tempTail bound
    · exact absurd bound (Nat.not_lt.mpr new)
  | exchangeTail =>
    simp only [View.observeProducer, View.observeExchange] at bound
    split_ifs at bound <;> exact absurd bound (Nat.not_lt.mpr new)
  | preallocateTail =>
    simp only [View.observeProducer, View.observeExchange] at bound
    split_ifs at bound <;> exact absurd bound (Nat.not_lt.mpr new)
  | _ => exact absurd bound (Nat.not_lt.mpr new)

/-- A buffer without a successor is the last one. -/
theorem Solo.last_of_unlinked {memory : Memory Value} {producer : ProducerPc Value}
    {consumer : ConsumerPc Value} {view : View Value} (solo : Solo memory producer consumer view)
    {tempTail : Address} (growable : view.Growable tempTail)
    (unlinked : memory.next tempTail = none) : tempTail = view.buffer (view.length - 1) := by
  obtain ⟨index, bound, rfl, _⟩ := growable
  have tailBound := solo.wellFormed.tail_lt
  by_cases last : index + 1 < view.length
  · rw [solo.links index last] at unlinked
    exact absurd unlinked (Option.some_ne_none _)
  · rw [show index = view.length - 1 by omega]

/-- A buffer appended behind the last one is linked to it. -/
theorem Solo.links_append {memory : Memory Value} {producer : ProducerPc Value}
    {consumer : ConsumerPc Value} {view : View Value} (solo : Solo memory producer consumer view)
    {tempTail : Address} (growable : view.Growable tempTail)
    (unlinked : memory.next tempTail = none) {index : Nat}
    (bound : index + 1 < (view.observeLink memory tempTail).length) :
    (memory.linkNext tempTail).next ((view.observeLink memory tempTail).buffer index) =
      some ((view.observeLink memory tempTail).buffer (index + 1)) := by
  obtain rfl := solo.last_of_unlinked growable unlinked
  have tailBound := solo.wellFormed.tail_lt
  have represents := solo.represents
  rw [View.observeLink, if_pos rfl] at bound ⊢
  have within : index < view.length := Nat.lt_of_succ_lt_succ bound
  have old : (view.append memory.allocated).buffer index = view.buffer index :=
    Function.update_of_ne (Nat.ne_of_lt within) ..
  rw [old, Memory.linkNext]
  rcases Nat.lt_or_ge (index + 1) view.length with before | last
  · have different : view.buffer index ≠ view.buffer (view.length - 1) := by
      intro same
      have equal := represents.buffer_injective within (by omega) same
      omega
    have next : (view.append memory.allocated).buffer (index + 1) = view.buffer (index + 1) :=
      Function.update_of_ne (Nat.ne_of_lt before) ..
    rw [next]
    refine (Function.update_of_ne different ..).trans ?_
    exact (Function.update_of_ne (represents.newAddress_ne within) ..).trans
      (solo.links index before)
  · obtain rfl : index = view.length - 1 := by omega
    have next : (view.append memory.allocated).buffer (view.length - 1 + 1) = memory.allocated := by
      rw [show view.length - 1 + 1 = view.length by omega]
      exact Function.update_self ..
    rw [next]
    exact Function.update_self ..

/-- An access of the producer keeps the buffers linked. -/
theorem Solo.links_produce {memory next : Memory Value} {producer nextProducer : ProducerPc Value}
    {consumer : ConsumerPc Value} {view : View Value} (solo : Solo memory producer consumer view)
    (step : stepProducer memory producer = some (next, nextProducer)) {index : Nat}
    (bound : index + 1 < (view.observeProducer memory producer).length) :
    next.next ((view.observeProducer memory producer).buffer index) =
      some ((view.observeProducer memory producer).buffer (index + 1)) := by
  have holds : producer.Holds view := solo.sound.producers ()
  cases producer with
  | exchangeNext data location tempTail =>
    simp only [stepProducer] at step
    simp only [View.observeProducer] at bound ⊢
    cases link : memory.next tempTail with
    | none =>
      simp only [link, Option.some.injEq, Prod.mk.injEq] at step
      rw [if_pos link] at bound
      rw [if_pos rfl]
      exact step.1 ▸ solo.links_append holds.2 link bound
    | some other =>
      simp only [link, Option.some.injEq, Prod.mk.injEq] at step
      simp only [link, reduceCtorEq, if_false] at bound ⊢
      exact step.1 ▸ solo.links index bound
  | preallocateNext data tempTail =>
    simp only [stepProducer] at step
    simp only [View.observeProducer] at bound ⊢
    cases link : memory.next tempTail with
    | none =>
      simp only [link, Option.some.injEq, Prod.mk.injEq] at step
      rw [if_pos link] at bound
      rw [if_pos rfl]
      exact step.1 ▸ solo.links_append holds.2 link bound
    | some other =>
      simp only [link, Option.some.injEq, Prod.mk.injEq] at step
      simp only [link, reduceCtorEq, if_false] at bound ⊢
      exact step.1 ▸ solo.links index bound
  | exchangeTail =>
    simp only [stepProducer, Memory.exchangeTail] at step
    simp only [View.observeProducer, View.observeExchange] at bound ⊢
    split at step <;> cases step <;> split_ifs at bound ⊢ <;> exact solo.links index bound
  | preallocateTail =>
    simp only [stepProducer, Memory.exchangeTail] at step
    simp only [View.observeProducer, View.observeExchange] at bound ⊢
    split at step <;> cases step <;> split_ifs at bound ⊢ <;> exact solo.links index bound
  | _ =>
    simp only [stepProducer] at step
    repeat' split at step
    all_goals cases step
    all_goals exact solo.links index bound

section Steps

variable {memory next : Memory Value} {producer nextProducer : ProducerPc Value}
  {consumer nextConsumer : ConsumerPc Value} {view : View Value}

/-- An access of the producer. -/
theorem Solo.produce (solo : Solo memory producer consumer view) (fits : view.Fits)
    (step : stepProducer memory producer = some (next, nextProducer)) :
    Solo next nextProducer consumer (view.observeProducer memory producer) ∧
      view.Produces (view.observeProducer memory producer) := by
  classical
  have performed : perform (⟨memory, fun _ => producer, consumer⟩ : State Unit Value)
      (.producer ()) = some ⟨next, fun _ => nextProducer, consumer⟩ := by
    simp only [perform, step, Option.some.injEq, State.mk.injEq, true_and, and_true]
    exact funext fun _ => Function.update_self ..
  obtain ⟨sound, produces⟩ := solo.sound.perform_producer (fun _ _ => fits.1) fits.2 performed
  replace produces : view.Produces (view.observeProducer memory producer) := produces
  obtain ⟨garbage, freed, deleted, allocated⟩ := stepProducer_keeps step
  refine ⟨{
    sound := sound
    attended := solo.attended.perform solo.sound fits performed
    unhandled := fun location handled => solo.unhandled location (produces.handled location handled)
    noGarbage := garbage.trans solo.noGarbage
    unfreed := fun address => by rw [freed, solo.unfreed]
    undeleted := ?_
    unallocated := fun address above => by
      rw [deleted, solo.unallocated address (allocated.trans above)]
    links := fun index bound => solo.links_produce step bound }, produces⟩
  intro index above bound
  rw [deleted]
  rcases Nat.lt_or_ge index view.length with old | new
  · rw [produces.buffer index old]
    exact solo.undeleted index (produces.headIndex ▸ above) old
  · rw [observeProducer_appended new bound]
    exact solo.unallocated _ le_rfl

/-- An access of the consumer. -/
theorem Solo.consume {grown : View Value} (solo : Solo memory producer consumer view)
    (step : stepConsumer memory consumer = some (next, nextConsumer))
    (observed : view.observeConsumer memory consumer = grown)
    (unhandled : ∀ location, grown.slot location ≠ .HANDLED)
    (noGarbage : next.garbageListHead = none) (unfreed : ∀ address, next.freed address = false)
    (undeleted : ∀ index, grown.headIndex ≤ index → index < grown.length →
      next.deleted (grown.buffer index) = false)
    (unallocated : ∀ address, next.allocated ≤ address → next.deleted address = false)
    (links : ∀ index, index + 1 < grown.length →
      next.next (grown.buffer index) = some (grown.buffer (index + 1))) :
    Solo next producer nextConsumer grown := by
  classical
  have performed : perform (⟨memory, fun _ => producer, consumer⟩ : State Unit Value)
      .consumer = some ⟨next, fun _ => producer, nextConsumer⟩ := by
    simp only [perform, step]
  obtain ⟨sound, consumes⟩ := solo.sound.perform_consumer performed
  have same : view.observe (⟨memory, fun _ => producer, consumer⟩ : State Unit Value)
      .consumer = grown := observed
  rw [same] at sound consumes
  exact ⟨sound, solo.attended.consume consumes, unhandled, noGarbage, unfreed, undeleted,
    unallocated, links⟩

/-- An access of the consumer that only reads. -/
theorem Solo.read (solo : Solo memory producer consumer view)
    (step : stepConsumer memory consumer = some (memory, nextConsumer))
    (observed : view.observeConsumer memory consumer = view) :
    Solo memory producer nextConsumer view :=
  solo.consume step observed solo.unhandled solo.noGarbage solo.unfreed solo.undeleted
    solo.unallocated solo.links

/-- The call or the return of an operation. -/
theorem Solo.turn (solo : Solo memory producer consumer view)
    (sound : Sound (⟨memory, fun _ => nextProducer, nextConsumer⟩ : State Unit Value) view)
    (attended : Attended (fun _ : Unit => nextProducer) view) :
    Solo memory nextProducer nextConsumer view :=
  ⟨sound, attended, solo.unhandled, solo.noGarbage, solo.unfreed, solo.undeleted,
    solo.unallocated, solo.links⟩

/-- A slot of a buffer from the head on is there. -/
theorem Solo.hasSlot (solo : Solo memory producer consumer view) {index offset : Nat}
    (above : view.headIndex ≤ index) (bound : index < view.length)
    (inside : offset < bufferSize) : memory.HasSlot (view.buffer index) offset :=
  ⟨inside, solo.unfreed _, solo.undeleted index above bound⟩

end Steps

end MarketSandbox.MPSCQueue
