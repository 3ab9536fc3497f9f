/-
This file says what the chain of buffers looks like between two calls of dequeue,
whatever the producers are doing, in every run in which no counter wraps. The
buffers from the head on are linked both ways in the order of their positions,
the tail is the last or the last but one of them, every buffer missing before it
has been emptied, and a producer's walk back finds the buffer of its slot.
-/

import MarketSandbox.Queue.Waiting

namespace MarketSandbox.MPSCQueue

open Transition

variable {Producer Value : Type}

/-! ### The slots taken -/

section Taken

variable [DecidableEq Value]

/-- The slot from which the consumer's next access takes a value. -/
def Memory.takenSlot (memory : Memory Value) : ConsumerPc Value → Option (Address × Nat)
  | .readSet =>
    if memory.isSet memory.headOfQueue (memory.head memory.headOfQueue) = .SET then
      some (memory.headOfQueue, memory.head memory.headOfQueue)
    else none
  | .rescan tempHeadOfQueue tempHead scanHeadOfQueue scanHead =>
    if scanHeadOfQueue = tempHeadOfQueue ∧ tempHead ≤ scanHead then
      some (tempHeadOfQueue, tempHead)
    else none
  | _ => none

/-- The slots taken so far, after a step. -/
def recordTaken (taken : List (Address × Nat)) (state : State Producer Value) :
    Label Producer Value → List (Address × Nat)
  | .consumer => taken ++ (state.memory.takenSlot state.consumer).toList
  | _ => taken

variable [DecidableEq Producer]

/-- The machine together with the slots taken. -/
def takingSystem [Inhabited Value] :
    System (State Producer Value × List (Address × Nat)) (Label Producer Value) :=
  system.withHistory [] recordTaken

/-- A step wraps neither the location counter nor the end of the tail's buffer. -/
def WrapsNothing (state : State Producer Value) (label : Label Producer Value) : Prop :=
  ∀ target, perform state label = some target →
    state.memory.tail ≤ target.memory.tail ∧
      bufferSize * target.memory.positionInQueue target.memory.tailOfQueue < 2 ^ 32

instance (state : State Producer Value) (label : Label Producer Value) :
    Decidable (WrapsNothing state label) :=
  match performed : perform state label with
  | none => isTrue fun target step => absurd (performed.symm.trans step) nofun
  | some target =>
    decidable_of_iff (state.memory.tail ≤ target.memory.tail ∧
        bufferSize * target.memory.positionInQueue target.memory.tailOfQueue < 2 ^ 32)
      ⟨fun fits other step => by
        obtain rfl := Option.some_inj.mp (performed.symm.trans step)
        exact fits, fun wrapsNothing => wrapsNothing target performed⟩

end Taken

/-- The locations delivered are those of slots that have been taken. -/
def Recorded (taken : List (Address × Nat)) (view : View Value) : Prop :=
  ∀ location ∈ view.channel.delivered,
    (view.buffer (location / bufferSize), location % bufferSize) ∈ taken

variable {state : State Producer Value} {view : View Value} {taken : List (Address × Nat)}

theorem location_div {index offset : Nat} (inside : offset < bufferSize) :
    (bufferSize * index + offset) / bufferSize = index := by
  simp only [bufferSize] at inside ⊢
  omega

theorem location_mod {index offset : Nat} (inside : offset < bufferSize) :
    (bufferSize * index + offset) % bufferSize = offset := by
  rw [Nat.mul_add_mod, Nat.mod_eq_of_lt inside]

/-- A producer delivers nothing. -/
theorem delivered_observeProducer (view : View Value) (memory : Memory Value)
    (pc : ProducerPc Value) :
    (view.observeProducer memory pc).channel.delivered = view.channel.delivered := by
  cases pc <;> simp only [View.observeProducer, View.observeLink, View.observeExchange] <;>
    (try split) <;> (try split) <;> rfl

/-- The consumer delivers the location of the slot from which it takes a value. -/
theorem Sound.delivered_observeConsumer [DecidableEq Value] (sound : Sound state view) :
    ∀ location ∈ (view.observeConsumer state.memory state.consumer).channel.delivered,
      location ∈ view.channel.delivered ∨
        state.memory.takenSlot state.consumer =
          some (view.buffer (location / bufferSize), location % bufferSize) := by
  have holds := sound.consumer
  have represents := sound.represents
  have wellFormed := sound.wellFormed
  intro location member
  cases pc : state.consumer with
  | readSet =>
    rw [pc] at holds member
    obtain ⟨_, inside, _⟩ := holds
    simp only [View.observeConsumer, Memory.takenSlot] at member ⊢
    split at member
    next set =>
      rw [if_pos set]
      refine (List.mem_append.mp member).imp_right fun front => ?_
      rw [List.mem_singleton.mp front, View.front, location_div inside, location_mod inside,
        represents.headOfQueue, represents.head]
    next => exact Or.inl member
  | rescan tempHeadOfQueue tempHead scanHeadOfQueue scanHead =>
    rw [pc] at holds member
    obtain ⟨_, _, target, index, rescanning⟩ := holds
    have targetBound := wellFormed.live_lt target rescanning.member
    have indexOf : state.memory.indexOf tempHeadOfQueue = target := by
      rw [rescanning.address, sound.indexOf_eq targetBound]
    simp only [View.observeConsumer, Memory.takenSlot, indexOf] at member ⊢
    by_cases arrived : scanHeadOfQueue = tempHeadOfQueue ∧ tempHead ≤ scanHead
    · rw [if_pos arrived] at member ⊢
      have handled : location ∈ view.channel.delivered ++ [bufferSize * target + tempHead] := by
        split at member
        · exact member
        · exact member
      refine (List.mem_append.mp handled).imp_right fun here => ?_
      rw [List.mem_singleton.mp here, location_div rescanning.inside,
        location_mod rescanning.inside, rescanning.address]
    · rw [if_neg arrived] at member
      exact Or.inl member
  | collect =>
    rw [pc] at member
    simp only [View.observeConsumer] at member
    left
    split at member
    · split at member
      · exact member
      · exact member
    · exact member
  | readHandled =>
    rw [pc] at member
    simp only [View.observeConsumer] at member
    left
    split at member
    · exact member
    · exact member
  | _ =>
    rw [pc] at member
    exact Or.inl member

section Runs

variable [DecidableEq Producer] [DecidableEq Value]

/-- A step records the slots whose locations it delivers. -/
theorem Recorded.step (recorded : Recorded taken view) (sound : Sound state view)
    {label : Label Producer Value} {target : State Producer Value}
    (step : perform state label = some target) (grows : view.Grows (view.observe state label)) :
    Recorded (recordTaken taken state label) (view.observe state label) := by
  -- the buffer of a location delivered before keeps its address
  have old : ∀ location ∈ view.channel.delivered,
      ((view.observe state label).buffer (location / bufferSize), location % bufferSize) ∈
        taken := by
    intro location member
    have filled := (sound.wellFormed.published location).mp
      (sound.wellFormed.ordered.delivered_published location member)
    rw [grows.buffer_of_le sound.wellFormed (sound.wellFormed.written location filled)]
    exact recorded location member
  intro location member
  cases label with
  | producer producer =>
    refine old location ?_
    rwa [View.observe, delivered_observeProducer] at member
  | consumer =>
    rw [View.observe] at member
    rcases sound.delivered_observeConsumer location member with before | here
    · exact List.mem_append_left _ (old location before)
    · refine List.mem_append_right _ ?_
      rw [here, (sound.perform_consumer step).2.buffer]
      exact List.mem_cons_self
  | _ => exact old location member

/-- What a claim adds to the tickets does not wrap the location counter. -/
theorem Sound.claims_of_wraps (sound : Sound state view) {label : Label Producer Value}
    {target : State Producer Value} (wraps : WrapsNothing state label)
    (step : perform state label = some target) : ∀ producer data, label = .producer producer →
      state.producers producer = .claim data → view.claims + 1 < 2 ^ 32 := by
  rintro producer data rfl pc
  have claimed := step
  simp only [perform, pc, stepProducer, Option.some.injEq] at claimed
  subst claimed
  have moved : state.memory.tail ≤ (state.memory.tail + 1) % 2 ^ 32 := (wraps _ step).1
  rw [← sound.represents.tail]
  change state.memory.tail + 1 < 2 ^ 32
  omega

/-- A step that wraps nothing keeps the machine sound and the end of the tail's buffer in range. -/
theorem Sound.step_of_wraps (sound : Sound state view) (room : view.Room)
    {label : Label Producer Value} {target : State Producer Value}
    (wraps : WrapsNothing state label) (step : perform state label = some target) :
    Sound target (view.observe state label) ∧ view.Grows (view.observe state label) ∧
      (view.observe state label).Room := by
  obtain ⟨after, grows⟩ := sound.step_of_room (sound.claims_of_wraps wraps step) room step
  refine ⟨after, grows, ?_⟩
  have fits := (wraps target step).2
  rwa [after.represents.tailOfQueue,
    after.represents.position _ after.wellFormed.tail_lt] at fits

/-- In a run in which no counter wraps the machine is sound, the end of the tail's buffer does not
wrap, and the slots taken are recorded. -/
theorem taking_sound [Inhabited Value] {labels : List (Label Producer Value)}
    {pair : State Producer Value × List (Address × Nat)}
    (run : Run (takingSystem.restrict fun pair => WrapsNothing pair.1) labels pair) :
    ∃ view, Sound pair.1 view ∧ view.Room ∧ Recorded pair.2 view := by
  refine Run.invariant (fun _ pair => ∃ view, Sound pair.1 view ∧ view.Room ∧ Recorded pair.2 view)
    ?_ ?_ run
  · rintro ⟨state, taken⟩ ⟨rfl, rfl⟩
    exact ⟨.initial, .start, (by decide : bufferSize * 1 < 2 ^ 32), nofun⟩
  · rintro labels ⟨state, taken⟩ label ⟨target, after⟩ _ ⟨view, sound, room, recorded⟩
      ⟨wraps, step, rfl⟩
    obtain ⟨soundAfter, grows, roomAfter⟩ := sound.step_of_wraps room wraps step
    exact ⟨_, soundAfter, roomAfter, recorded.step sound step grows⟩

end Runs

/-! ### The chain -/

/-- The buffers from the head on, between two calls of dequeue. -/
structure Chained (memory : Memory Value) (taken : List (Address × Nat))
    (chain : List Address) : Prop where
  head : chain.head? = some memory.headOfQueue
  forward : LinkedList.Forward memory.next chain
  ends : ∀ last, chain.getLast? = some last → memory.next last = none
  increasing : chain.Pairwise fun first second =>
    memory.positionInQueue first < memory.positionInQueue second
  tail : ∃ front behind, chain = front ++ memory.tailOfQueue :: behind ∧ behind.length ≤ 1
  backward : LinkedList.Backward memory.prev chain
  missing : ∀ position, 1 ≤ position → position < memory.positionInQueue memory.tailOfQueue →
    (∀ buffer ∈ chain, memory.positionInQueue buffer ≠ position) →
      ∃ buffer < memory.allocated, memory.positionInQueue buffer = position ∧
        ∀ offset < bufferSize, (buffer, offset) ∈ taken

/-- The tail is the last or the last but one of the reachable buffers. -/
theorem View.WellFormed.live_tail (wellFormed : view.WellFormed) : ∃ front behind,
    view.live = front ++ view.tailIndex :: behind ∧ behind.length ≤ 1 := by
  obtain ⟨front, behind, whole⟩ := List.mem_iff_append.mp wellFormed.tail_mem
  refine ⟨front, behind, whole, ?_⟩
  have sorted := wellFormed.sorted
  have length := wellFormed.length_le
  rw [whole] at sorted
  have above := (List.pairwise_append.mp sorted).2.1
  cases behind with
  | nil => exact Nat.zero_le 1
  | cons first rest =>
    cases rest with
    | nil => exact le_rfl
    | cons second rest =>
      have firstAbove := List.rel_of_pairwise_cons above List.mem_cons_self
      have secondAbove := List.rel_of_pairwise_cons (List.pairwise_cons.mp above).2
        List.mem_cons_self
      have bound := wellFormed.live_lt second (by simp [whole])
      omega

/-- All slots of a buffer that the head has passed or that has been folded away are taken. -/
theorem Sound.taken_of_missing (sound : Sound state view) (recorded : Recorded taken view)
    {index : Nat} (bound : index < view.length) (missing : index ∉ view.live) :
    ∀ offset < bufferSize, (view.buffer index, offset) ∈ taken := by
  intro offset inside
  have wellFormed := sound.wellFormed
  have delivered : bufferSize * index + offset ∈ view.channel.delivered := by
    rw [wellFormed.delivered]
    rcases Nat.lt_or_ge index view.headIndex with before | after
    · left
      unfold View.front
      simp only [bufferSize] at inside ⊢
      omega
    · right
      refine wellFormed.skipped index (lt_of_le_of_ne after ?_) bound missing offset inside
      rintro rfl
      exact missing wellFormed.head_mem
  have found := recorded _ delivered
  rwa [location_div inside, location_mod inside] at found

/-- Between two calls of dequeue the reachable buffers are chained. -/
theorem Sound.chained (sound : Sound state view) (recorded : Recorded taken view)
    (idle : state.consumer = .idle) :
    Chained state.memory taken (view.live.map view.buffer) := by
  have wellFormed := sound.wellFormed
  have represents := sound.represents
  have back : view.back = view.live := by
    have holds := sound.consumer
    rwa [idle] at holds
  exact {
    head := by
      obtain ⟨behind, whole⟩ := wellFormed.first
      rw [whole, List.map_cons, List.head?_cons, represents.headOfQueue]
    forward := represents.forward
    ends := by
      intro last final
      obtain ⟨others, whole, _⟩ := wellFormed.live_concat
      rw [whole, List.map_append, List.map_singleton, List.getLast?_concat] at final
      obtain rfl := Option.some_inj.mp final
      exact represents.last
    increasing := by
      refine List.pairwise_map.mpr (List.Pairwise.imp_of_mem ?_ wellFormed.sorted)
      intro first second firstMember secondMember less
      rw [represents.position first (wellFormed.live_lt first firstMember),
        represents.position second (wellFormed.live_lt second secondMember)]
      exact Nat.succ_lt_succ less
    tail := by
      obtain ⟨front, behind, whole, few⟩ := wellFormed.live_tail
      refine ⟨front.map view.buffer, behind.map view.buffer, ?_, by rwa [List.length_map]⟩
      rw [whole, List.map_append, List.map_cons, represents.tailOfQueue]
    backward := back ▸ represents.backward
    missing := by
      intro position positive below notThere
      rw [represents.tailOfQueue, represents.position _ wellFormed.tail_lt] at below
      have bound : position - 1 < view.length := by
        have tailBound := wellFormed.tail_lt
        omega
      have same : state.memory.positionInQueue (view.buffer (position - 1)) = position := by
        rw [represents.position _ bound]
        omega
      refine ⟨_, represents.address _ bound, same, sound.taken_of_missing recorded bound ?_⟩
      exact fun member => notThere _ (List.mem_map_of_mem member) same }

/-! ### The walk back -/

/-- The address that a producer holds. -/
def ProducerPc.tempTail : ProducerPc Value → Option Address
  | .compare _ _ tempTail => some tempTail
  | .loadNext _ _ tempTail => some tempTail
  | .exchangeNext _ _ tempTail => some tempTail
  | .exchangeTail _ _ tempTail _ => some tempTail
  | .walk _ _ tempTail _ => some tempTail
  | .loadSlot _ _ _ tempTail _ => some tempTail
  | .publish _ _ _ tempTail _ => some tempTail
  | .preallocateNext _ tempTail => some tempTail
  | .preallocateTail _ tempTail _ => some tempTail
  | _ => none

/-- A producer holds the address of a buffer that the tail has reached. -/
theorem ProducerPc.Holds.loaded {pc : ProducerPc Value} (holds : pc.Holds view)
    {address : Address} (held : pc.tempTail = some address) : view.Loaded address := by
  have linking {tempTail newBuffer : Address} (linking : view.Linking tempTail newBuffer) :
      view.Loaded tempTail := by
    rcases linking with ⟨_, rfl, _⟩ | ⟨index, bound, rfl⟩
    · exact ⟨view.tailIndex, le_rfl, rfl⟩
    · exact ⟨index, bound.le, rfl⟩
  have growable {tempTail : Address} (growable : view.Growable tempTail) :
      view.Loaded tempTail := by
    obtain ⟨index, bound, rfl, _⟩ := growable
    exact ⟨index, bound, rfl⟩
  cases pc <;> cases held
  case compare => exact holds.2
  case loadNext => exact growable holds.2
  case exchangeNext => exact growable holds.2
  case exchangeTail => exact linking holds.2
  case walk =>
    obtain ⟨_, index, bound, rfl, _⟩ := holds
    exact ⟨index, bound, rfl⟩
  case loadSlot => exact ⟨_, holds.2.1, holds.2.2.1⟩
  case publish => exact ⟨_, holds.2.1, holds.2.2.1⟩
  case preallocateNext => exact growable holds.2
  case preallocateTail => exact linking holds.2

/-- The slot of the location that a producer has claimed is empty until the producer fills it. -/
theorem ProducerPc.Holds.empty {pc : ProducerPc Value} (holds : pc.Holds view)
    {location : Nat} (here : pc.location = some location) : view.slot location = .EMPTY := by
  cases pc <;> cases here
  case loadTail => exact holds.1
  all_goals exact holds.1.1

/-- One turn of the walk back: the buffer lies behind the location, and the walk takes `prev`. -/
def WalksBack (memory : Memory Value) (location : Nat) (buffer prev : Address) : Prop :=
  location < prevSize (memory.positionInQueue buffer) ∧ memory.prev buffer = some prev

/-- The buffer has the slot of a location. -/
def Contains (memory : Memory Value) (buffer : Address) (location : Nat) : Prop :=
  prevSize (memory.positionInQueue buffer) ≤ location ∧
    location < numberOfElements (memory.positionInQueue buffer)

/-- The walk back from a buffer at or behind an empty slot reaches the buffer of the slot. -/
theorem Sound.walk_reaches (sound : Sound state view) (room : view.Room) {location : Nat}
    (empty : view.slot location = .EMPTY) (index : Nat) (bound : index ≤ view.tailIndex)
    (reached : location / bufferSize ≤ index) :
    ∃ target, Relation.ReflTransGen (WalksBack state.memory location) (view.buffer index) target ∧
      Contains state.memory target location := by
  induction index using Nat.strong_induction_on with
  | h index inductionHypothesis =>
    obtain ⟨elements, size⟩ := sound.numberOfElements_eq room bound
    by_cases before : location < bufferSize * index
    · obtain ⟨lower, less, prev, above⟩ := sound.walk_back bound empty before
      obtain ⟨target, walk, contains⟩ :=
        inductionHypothesis lower less (less.le.trans bound) above
      exact ⟨target, .head ⟨size.symm ▸ before, prev⟩ walk, contains⟩
    · refine ⟨_, .refl, ?_, ?_⟩
      · rw [size]
        exact Nat.not_lt.mp before
      · rw [elements]
        simp only [bufferSize] at reached ⊢
        omega

/-! ### Every run -/

section Every

variable [DecidableEq Producer] [DecidableEq Value] [Inhabited Value]

/-- Few enough enqueues wrap no counter. -/
theorem wrapsNothing_of_few {labels : List (Label Producer Value)} {state : State Producer Value}
    (run : Run system labels state) (few : FewEnqueues labels) :
    Run (system.restrict WrapsNothing) labels state := by
  obtain ⟨view, observedRun⟩ := run.withHistory View.initial View.observe
  refine @Run.invariant_of_admissible _ _ observed FewEnqueues
    (fun labels pair => Run (system.restrict WrapsNothing) labels pair.1) labels (state, view)
    (fun _ _ few => few.of_append) ?_ ?_ observedRun few
  · rintro ⟨source, _⟩ ⟨initial, _⟩
    exact .start initial
  · rintro labels ⟨source, before⟩ label ⟨target, after⟩ prior few restricted ⟨step, rfl⟩
    refine restricted.next ⟨fun other performed => ?_, step⟩
    obtain rfl := Option.some_inj.mp (step.symm.trans performed)
    have sound := observed_sound prior few.of_append
    have small := (callsAccounted prior).small few.of_append
    obtain ⟨soundAfter, grows⟩ := sound.step small step
    have smallAfter := (callsAccounted (prior.next ⟨step, rfl⟩)).small few
    have fits := smallAfter.fits soundAfter.wellFormed
    rw [sound.represents.tail, soundAfter.represents.tail, soundAfter.represents.tailOfQueue,
      soundAfter.represents.position _ soundAfter.wellFormed.tail_lt]
    exact ⟨grows.claimed.length_le, fits.2⟩

/-- In a run in which no counter wraps, whenever the consumer is between two calls of dequeue, the
buffers are chained, and the walk back from every address at or behind a producer's location that
the producer holds or may load reaches the buffer of the location. -/
theorem chain_well_formed {labels : List (Label Producer Value)}
    {pair : State Producer Value × List (Address × Nat)}
    (run : Run (takingSystem.restrict fun pair => WrapsNothing pair.1) labels pair)
    (idle : pair.1.consumer = .idle) :
    (∃ chain, Chained pair.1.memory pair.2 chain) ∧
      ∀ producer location tempTail, (pair.1.producers producer).location = some location →
        ((pair.1.producers producer).tempTail = some tempTail ∨
          pair.1.memory.tailOfQueue = tempTail) →
        location < numberOfElements (pair.1.memory.positionInQueue tempTail) →
          ∃ target, Relation.ReflTransGen (WalksBack pair.1.memory location) tempTail target ∧
            Contains pair.1.memory target location := by
  obtain ⟨view, sound, room, recorded⟩ := taking_sound run
  refine ⟨⟨_, sound.chained recorded idle⟩, ?_⟩
  intro producer location tempTail here held behind
  have loaded : view.Loaded tempTail := by
    rcases held with held | rfl
    · exact (sound.producers producer).loaded held
    · exact ⟨view.tailIndex, le_rfl, sound.represents.tailOfQueue⟩
  obtain ⟨index, bound, rfl⟩ := loaded
  refine sound.walk_reaches room ((sound.producers producer).empty here) index bound ?_
  rw [(sound.numberOfElements_eq room bound).1] at behind
  simp only [bufferSize] at behind ⊢
  omega

end Every

namespace Sample

/-- One producer appends a buffer in advance and moves the tail to it; another one, whose slot is
the last of the first buffer, loads the tail and is about to walk back. -/
def extended : List (Label Bool Nat) :=
  stopped ++ [Label.producer false] ++
    (.enqueueCall true 7 :: List.replicate 3 (Label.producer true))

/-- The first producer has stopped before it moves the tail. -/
theorem stopped_run : ∃ state, Run system stopped state ∧ Begun 1619 state.memory ∧
    state.memory.next 0 = some 1 ∧ state.memory.positionInQueue 1 = 2 ∧
    state.producers false = .preallocateTail 7 0 1 ∧ state.producers true = .idle ∧
    state.consumer = .idle := by
  obtain ⟨first, run, start, asleep, idle⟩ := begun_run 1618 le_rfl
  have begun : Begun 1618 first.memory := start ▸ begun_filling 1618
  have untouched : Untouched 1618 first.memory := start ▸ untouched_filling 1618
  obtain ⟨second, stops, memory, here, consumer, others⟩ :=
    steps_of_call (idle false) (begun.preallocates rfl untouched.next)
  refine ⟨second, run.append stops, ?_, ?_, ?_, ?_, ?_, consumer.trans asleep⟩
  · rw [memory]
    exact begun.filled.linkNext untouched.allocated
  · rw [memory, linkNext_next]
    exact congrArg some untouched.allocated
  · have allocated : (filled 1618 first.memory).allocated = 1 := untouched.allocated
    have position : ((filled 1618 first.memory).linkNext 0).positionInQueue 1 =
        wrap ((filled 1618 first.memory).positionInQueue 0 + 1) := by
      simp only [Memory.linkNext, Memory.newBuffer, allocated, Function.update_self]
    rw [memory, position, begun.filled.position]
    rfl
  · rw [here, untouched.allocated]
  · exact (others true Bool.noConfusion).trans (idle true)

theorem extended_run : ∃ state, Run system extended state ∧ state.consumer = .idle ∧
    state.memory.next 0 = some 1 ∧ state.memory.positionInQueue 1 = 2 ∧
    state.producers true = .walk 7 1619 1 true := by
  obtain ⟨state, run, begun, next, position, here, idle, asleep⟩ := stopped_run
  have exchange : accesses 1 (state.memory, state.producers false) =
      some ({ state.memory with tailOfQueue := 1 }, .returning 7) := by
    rw [here, accesses, stepProducer, Memory.exchangeTail, if_pos begun.tailOfQueue]
    rfl
  obtain ⟨second, moves, memory, _, consumer, others⟩ := steps_of_accesses exchange
  have tail : second.memory.tail = 1619 := by
    rw [memory]
    exact begun.tail
  have tailOfQueue : second.memory.tailOfQueue = 1 := by
    rw [memory]
  have last : second.memory.positionInQueue 1 = 2 := by
    rw [memory]
    exact position
  have claim : stepProducer second.memory (.claim 7) =
      some ({ second.memory with tail := 1620 }, .loadTail 7 1619) := by
    rw [stepProducer, tail]
    rfl
  have loadTail : stepProducer { second.memory with tail := 1620 } (.loadTail 7 1619) =
      some ({ second.memory with tail := 1620 }, .compare 7 1619 1) := by
    rw [stepProducer, tailOfQueue]
  have compare : stepProducer { second.memory with tail := 1620 } (.compare 7 1619 1) =
      some ({ second.memory with tail := 1620 }, .walk 7 1619 1 true) := by
    have inside : ¬numberOfElements 2 ≤ 1619 := by decide
    simp only [stepProducer, last, if_neg inside]
  have looks : accesses 3 (second.memory, .claim 7) =
      some ({ second.memory with tail := 1620 }, .walk 7 1619 1 true) := by
    rw [accesses_succ _ claim, accesses_succ _ loadTail, accesses_succ _ compare, accesses]
  obtain ⟨third, calls, after, stands, consumerAfter, _⟩ :=
    steps_of_call ((others true Bool.noConfusion).trans idle) looks
  refine ⟨third, (run.append moves).append calls, ?_, ?_, ?_, stands⟩
  · rw [consumerAfter, consumer, asleep]
  · rw [after]
    change second.memory.next 0 = some 1
    rw [memory]
    exact next
  · rw [after]
    exact last

end Sample

/-- The walk from the buffer appended last reaches the one with the producer's slot. -/
theorem chain_well_formed_sample : ∃ state taken, Run system Sample.extended state ∧
    state.memory.next 0 = some 1 ∧ (∃ chain, Chained state.memory taken chain) ∧
      ∃ target, Relation.ReflTransGen (WalksBack state.memory 1619) 1 target ∧
        Contains state.memory target 1619 := by
  obtain ⟨state, run, idle, next, position, here⟩ := Sample.extended_run
  obtain ⟨taken, recorded⟩ :=
    (wrapsNothing_of_few run (by decide +kernel)).withHistory_restrict [] recordTaken
  have wellFormed := chain_well_formed recorded idle
  refine ⟨state, taken, run, next, wellFormed.1,
    wellFormed.2 true 1619 1 (by rw [here]; rfl) (Or.inl (by rw [here]; rfl)) ?_⟩
  rw [position]
  decide

end MarketSandbox.MPSCQueue
