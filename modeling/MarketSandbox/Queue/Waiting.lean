/-
This file says when a producer has to wait for another one. A buffer is
appended by two exchanges, of `next` and of the tail, and while the producer
that made the first is stopped before the second, a producer whose location
lies beyond the tail's buffer loads the tail again and again. That is the only
way: every other producer that is inside enqueue returns after finitely many
accesses of its own, wherever the others have stopped.
-/

import MarketSandbox.Queue.Quiescence

namespace MarketSandbox.MPSCQueue

open Transition

variable {Producer Value : Type}

/-- The end of the tail's buffer. -/
def Memory.tailEnd (memory : Memory Value) : Nat :=
  numberOfElements (memory.positionInQueue memory.tailOfQueue)

/-- The producer looks for a buffer that ends behind the tail's, and does not move the tail
itself. -/
def ProducerPc.Beyond (memory : Memory Value) : ProducerPc Value → Prop
  | .claim _ => memory.tailEnd ≤ memory.tail
  | .loadTail _ location => memory.tailEnd ≤ location
  | .compare _ location tempTail =>
    memory.tailEnd ≤ location ∧ numberOfElements (memory.positionInQueue tempTail) ≤ location
  | .loadNext _ location _ => memory.tailEnd ≤ location
  | .exchangeNext _ location _ => memory.tailEnd ≤ location
  | .exchangeTail _ location tempTail _ =>
    tempTail ≠ memory.tailOfQueue ∧ memory.tailEnd ≤ location
  | _ => False

/-- The tail lags behind a buffer that has been appended, and the producer is beyond it. -/
def Blocked (memory : Memory Value) (pc : ProducerPc Value) : Prop :=
  memory.next memory.tailOfQueue ≠ none ∧ pc.Beyond memory

section Machine

variable [DecidableEq Producer] [DecidableEq Value] [Inhabited Value]

/-- The producer returns after finitely many accesses when it alone takes steps. -/
def ReturnsAlone (state : State Producer Value) (producer : Producer) : Prop :=
  ∃ count data target, Steps system state
    (List.replicate count (Label.producer producer) ++ [Label.enqueueReturn producer data]) target

theorem ReturnsAlone.of_step {state target : State Producer Value} {producer : Producer}
    (rest : ReturnsAlone target producer)
    (step : perform state (.producer producer) = some target) : ReturnsAlone state producer := by
  obtain ⟨count, data, last, steps⟩ := rest
  exact ⟨count + 1, data, last, .cons step steps⟩

theorem ReturnsAlone.of_returning {state : State Producer Value} {producer : Producer}
    {data : Value} (here : state.producers producer = .returning data) :
    ReturnsAlone state producer := by
  have step : perform state (.enqueueReturn producer data) = some { state with
      producers := Function.update state.producers producer .idle } := by
    rw [perform, if_pos here]
  exact ⟨0, data, _, .single step⟩

end Machine

/-! ### A blocked producer never returns -/

/-- The address of the buffer a producer has appended and not made the tail yet. -/
def ProducerPc.newBuffer : ProducerPc Value → Option Address
  | .exchangeTail _ _ _ newBuffer => some newBuffer
  | .preallocateTail _ _ newBuffer => some newBuffer
  | _ => none

/-- The tail's buffer and those appended have been allocated. -/
structure Fresh (state : State Producer Value) : Prop where
  tail : state.memory.tailOfQueue < state.memory.allocated
  newBuffer : ∀ producer newBuffer, (state.producers producer).newBuffer = some newBuffer →
    newBuffer < state.memory.allocated

theorem stepProducer_fresh {memory next : Memory Value} {pc nextPc : ProducerPc Value}
    (step : stepProducer memory pc = some (next, nextPc))
    (tail : memory.tailOfQueue < memory.allocated)
    (own : ∀ newBuffer, pc.newBuffer = some newBuffer → newBuffer < memory.allocated) :
    memory.allocated ≤ next.allocated ∧ next.tailOfQueue < next.allocated ∧
      ∀ newBuffer, nextPc.newBuffer = some newBuffer → newBuffer < next.allocated := by
  cases pc with
  | exchangeTail data location tempTail newBuffer =>
    have bound := own newBuffer rfl
    simp only [stepProducer, Memory.exchangeTail] at step
    split at step <;> cases step
    · exact ⟨le_rfl, bound, fun _ none => by cases none⟩
    · exact ⟨le_rfl, tail, fun _ none => by cases none⟩
  | preallocateTail data tempTail newBuffer =>
    have bound := own newBuffer rfl
    simp only [stepProducer, Memory.exchangeTail] at step
    split at step <;> cases step
    · exact ⟨le_rfl, bound, fun _ none => by cases none⟩
    · exact ⟨le_rfl, tail, fun _ none => by cases none⟩
  | exchangeNext data location tempTail =>
    simp only [stepProducer] at step
    split at step <;> cases step
    · refine ⟨Nat.le_succ _, Nat.lt_succ_of_lt tail, fun newBuffer here => ?_⟩
      exact Option.some_inj.mp here ▸ Nat.lt_succ_self memory.allocated
    · exact ⟨le_rfl, tail, fun _ none => by cases none⟩
  | preallocateNext data tempTail =>
    simp only [stepProducer] at step
    split at step <;> cases step
    · refine ⟨Nat.le_succ _, Nat.lt_succ_of_lt tail, fun newBuffer here => ?_⟩
      exact Option.some_inj.mp here ▸ Nat.lt_succ_self memory.allocated
    · exact ⟨le_rfl, tail, fun _ none => by cases none⟩
  | _ =>
    simp only [stepProducer] at step
    repeat' split at step
    all_goals cases step
    all_goals exact ⟨le_rfl, tail, fun _ none => by cases none⟩

/-- The consumer moves no tail and allocates nothing. -/
theorem stepConsumer_keeps {memory next : Memory Value} {pc nextPc : ConsumerPc Value}
    (step : stepConsumer memory pc = some (next, nextPc)) :
    next.tailOfQueue = memory.tailOfQueue ∧ next.allocated = memory.allocated := by
  cases pc <;> simp only [stepConsumer] at step <;> (repeat' split at step) <;> cases step <;>
    exact ⟨rfl, rfl⟩

section Runs

variable [DecidableEq Producer] [DecidableEq Value]

omit [DecidableEq Value] in
theorem Fresh.update {state : State Producer Value} (fresh : Fresh state) {producer : Producer}
    {next : Memory Value} {pc : ProducerPc Value}
    (more : state.memory.allocated ≤ next.allocated) (tail : next.tailOfQueue < next.allocated)
    (own : ∀ newBuffer, pc.newBuffer = some newBuffer → newBuffer < next.allocated) :
    Fresh { state with
      memory := next
      producers := Function.update state.producers producer pc } := by
  refine ⟨tail, fun other newBuffer here => ?_⟩
  change (Function.update state.producers producer pc other).newBuffer = some newBuffer at here
  by_cases acting : other = producer
  · subst acting
    rw [Function.update_self] at here
    exact own newBuffer here
  · rw [Function.update_of_ne acting] at here
    exact (fresh.newBuffer other newBuffer here).trans_le more

omit [DecidableEq Value] in
theorem Fresh.step_producer {state : State Producer Value} (fresh : Fresh state)
    {producer : Producer} {next : Memory Value} {pc : ProducerPc Value}
    (step : stepProducer state.memory (state.producers producer) = some (next, pc)) :
    Fresh { state with
      memory := next
      producers := Function.update state.producers producer pc } := by
  obtain ⟨more, tail, own⟩ := stepProducer_fresh step fresh.tail (fresh.newBuffer producer)
  exact fresh.update more tail own

variable [Inhabited Value]

/-- In every run the tail's buffer has been allocated. -/
theorem fresh_of_run {labels : List (Label Producer Value)} {state : State Producer Value}
    (run : Run system labels state) : Fresh state := by
  refine run.invariant (fun _ state => Fresh state) ?_ ?_
  · rintro state rfl
    exact ⟨Nat.zero_lt_one, nofun⟩
  · rintro labels state label target _ fresh step
    cases label with
    | enqueueCall producer data =>
      obtain ⟨_, rfl⟩ := perform_enqueueCall step
      exact fresh.update le_rfl fresh.tail nofun
    | enqueueReturn producer data =>
      obtain ⟨_, rfl⟩ := perform_enqueueReturn step
      exact fresh.update le_rfl fresh.tail nofun
    | dequeueCall =>
      obtain ⟨_, rfl⟩ := perform_dequeueCall step
      exact ⟨fresh.tail, fresh.newBuffer⟩
    | dequeueReturn =>
      obtain ⟨_, rfl⟩ := perform_dequeueReturn step
      exact ⟨fresh.tail, fresh.newBuffer⟩
    | producer producer =>
      obtain ⟨next, pc, taken, rfl⟩ := perform_producer step
      exact fresh.step_producer taken
    | consumer =>
      obtain ⟨next, pc, taken, rfl⟩ := perform_consumer step
      obtain ⟨tail, allocated⟩ := stepConsumer_keeps taken
      refine ⟨?_, fun producer newBuffer here => ?_⟩
      · change next.tailOfQueue < next.allocated
        rw [tail, allocated]
        exact fresh.tail
      · change newBuffer < next.allocated
        rw [allocated]
        exact fresh.newBuffer producer newBuffer here

end Runs

/-- A producer that is blocked stays blocked by its own accesses. -/
theorem Blocked.step {memory next : Memory Value} {pc nextPc : ProducerPc Value}
    (blocked : Blocked memory pc) (fresh : memory.tailOfQueue ≠ memory.allocated)
    (step : stepProducer memory pc = some (next, nextPc)) : Blocked next nextPc := by
  obtain ⟨lags, beyond⟩ := blocked
  cases pc with
  | claim data =>
    cases step
    exact ⟨lags, beyond⟩
  | loadTail data location =>
    cases step
    exact ⟨lags, beyond, beyond⟩
  | compare data location tempTail =>
    rw [stepProducer, if_pos beyond.2] at step
    cases step
    exact ⟨lags, beyond.1⟩
  | loadNext data location tempTail =>
    simp only [stepProducer] at step
    split at step <;> cases step <;> exact ⟨lags, beyond⟩
  | exchangeNext data location tempTail =>
    simp only [stepProducer] at step
    split at step
    next unlinked =>
      cases step
      have apart : memory.tailOfQueue ≠ tempTail := by
        rintro rfl
        exact lags unlinked
      refine ⟨?_, apart.symm, ?_⟩
      · change Function.update (Function.update memory.next memory.allocated none) tempTail _
          memory.tailOfQueue ≠ none
        rwa [Function.update_of_ne apart, Function.update_of_ne fresh]
      · change numberOfElements (Function.update memory.positionInQueue memory.allocated _
          memory.tailOfQueue) ≤ location
        rwa [Function.update_of_ne fresh]
    next =>
      cases step
      exact ⟨lags, beyond⟩
  | exchangeTail data location tempTail newBuffer =>
    rw [stepProducer, Memory.exchangeTail, if_neg beyond.1.symm] at step
    cases step
    exact ⟨lags, beyond.2⟩
  | _ => exact absurd beyond id

section Runs

variable [DecidableEq Producer] [DecidableEq Value] [Inhabited Value]

/-- A blocked producer does not return while it alone takes steps. -/
theorem Blocked.not_returnsAlone {state : State Producer Value} {producer : Producer}
    (fresh : Fresh state) (blocked : Blocked state.memory (state.producers producer)) :
    ¬ReturnsAlone state producer := by
  rintro ⟨count, data, target, steps⟩
  induction count generalizing state with
  | zero =>
    have step : perform state (.enqueueReturn producer data) = some target :=
      Steps.single_iff.mp steps
    rw [(perform_enqueueReturn step).1] at blocked
    exact blocked.2
  | succ count inductionHypothesis =>
    cases steps with
    | cons head tail =>
      obtain ⟨next, pc, taken, rfl⟩ := perform_producer head
      refine inductionHypothesis (fresh.step_producer taken) ?_ tail
      have still := blocked.step (Nat.ne_of_lt fresh.tail) taken
      simpa only [Function.update_self] using still

end Runs

/-! ### Every other producer returns -/

section Progress

variable [DecidableEq Producer] [DecidableEq Value] [Inhabited Value]
  {state target : State Producer Value} {view : View Value} {producer : Producer}
  {pc nextPc : ProducerPc Value} {memory : Memory Value} {data : Value} {location : Nat}
  {tempTail : Address}

/-- A run with few enough enqueues leads to the state and the view. -/
def Reached (state : State Producer Value) (view : View Value) : Prop :=
  ∃ labels, Run observed labels (state, view) ∧ FewEnqueues labels

theorem Reached.sound (reached : Reached state view) : Sound state view := by
  obtain ⟨labels, run, few⟩ := reached
  exact observed_sound run few

theorem Reached.fits (reached : Reached state view) : view.Fits := by
  obtain ⟨labels, run, few⟩ := reached
  exact ((callsAccounted run).small few).fits (observed_sound run few).wellFormed

/-- One access more. -/
theorem Reached.onward (reached : Reached state view) (here : state.producers producer = pc)
    (step : stepProducer state.memory pc = some (memory, nextPc))
    (rest : ∀ target : State Producer Value, target.memory = memory →
      target.producers producer = nextPc →
      Reached target (view.observeProducer state.memory pc) → ReturnsAlone target producer) :
    ReturnsAlone state producer := by
  subst here
  have performed : perform state (.producer producer) = some { state with
      memory := memory
      producers := Function.update state.producers producer nextPc } := by
    simp only [perform, step]
  refine ReturnsAlone.of_step (rest _ rfl (Function.update_self ..) ?_) performed
  obtain ⟨labels, run, few⟩ := reached
  have observes : observed.step (state, view) (.producer producer) ({ state with
      memory := memory
      producers := Function.update state.producers producer nextPc },
      view.observeProducer state.memory (state.producers producer)) := ⟨performed, rfl⟩
  refine ⟨labels ++ [Label.producer producer], run.next observes, ?_⟩
  rw [FewEnqueues, called_append]
  exact (congrArg List.length (List.append_nil (called labels))).trans_lt few

theorem Reached.preallocateTail {newBuffer : Address} (reached : Reached state view)
    (here : state.producers producer = .preallocateTail data tempTail newBuffer) :
    ReturnsAlone state producer :=
  reached.onward here rfl fun _ _ done _ => .of_returning done

theorem Reached.preallocateNext (reached : Reached state view)
    (here : state.producers producer = .preallocateNext data tempTail) :
    ReturnsAlone state producer := by
  cases next : state.memory.next tempTail with
  | none =>
    refine reached.onward here (by rw [stepProducer, next]) fun _ _ there more => ?_
    exact more.preallocateTail there
  | some other =>
    refine reached.onward here (by rw [stepProducer, next]) fun _ _ done _ => ?_
    exact .of_returning done

theorem Reached.publish {prevSize : Nat} {isLastBuffer : Bool} (reached : Reached state view)
    (here : state.producers producer = .publish data location prevSize tempTail isLastBuffer) :
    ReturnsAlone state producer := by
  by_cases last : location - prevSize = bufferSize - 2 ∧ isLastBuffer = true
  · refine reached.onward here (by rw [stepProducer, if_pos last]) fun _ _ there more => ?_
    exact more.preallocateNext there
  · refine reached.onward here (by rw [stepProducer, if_neg last]) fun _ _ done _ => ?_
    exact .of_returning done

theorem Reached.loadSlot {prevSize : Nat} {isLastBuffer : Bool} (reached : Reached state view)
    (here : state.producers producer = .loadSlot data location prevSize tempTail isLastBuffer) :
    ReturnsAlone state producer := by
  have holds := reached.sound.producers producer
  rw [here] at holds
  have empty : state.memory.isSet tempTail (location - prevSize) = .EMPTY :=
    (reached.sound.located_slot holds.2).2.trans holds.1.1
  refine reached.onward here (by rw [stepProducer, if_pos empty]) fun _ _ there more => ?_
  exact more.publish there

/-- The walk back ends, as it comes to earlier and earlier buffers. -/
theorem Reached.walk {index : Nat} {isLastBuffer : Bool} (reached : Reached state view)
    (bound : index ≤ view.tailIndex)
    (here : state.producers producer = .walk data location (view.buffer index) isLastBuffer) :
    ReturnsAlone state producer := by
  induction index using Nat.strongRecOn generalizing state isLastBuffer with
  | ind index inductionHypothesis =>
    have sound := reached.sound
    have size := (sound.numberOfElements_eq reached.fits.2 bound).2
    by_cases before : location < bufferSize * index
    · have holds := sound.producers producer
      rw [here] at holds
      obtain ⟨lower, less, prev, _⟩ := sound.walk_back bound holds.1.1 before
      refine reached.onward here (by rw [stepProducer, size, if_pos before, prev])
        fun _ _ there more => ?_
      exact inductionHypothesis lower less more (less.le.trans bound) there
    · refine reached.onward here (by rw [stepProducer, size, if_neg before])
        fun _ _ there more => ?_
      exact more.loadSlot there

/-- The tail does not lag, or the location lies before the end of its buffer. -/
def View.Free (view : View Value) (location : Nat) : Prop :=
  view.tailIndex + 1 = view.length ∨ location < bufferSize * (view.tailIndex + 1)

/-- The tail's buffer has no successor if and only if it is the last one. -/
theorem Reached.next_tail (reached : Reached state view) :
    state.memory.next (view.buffer view.tailIndex) = none ↔ view.tailIndex + 1 = view.length := by
  have sound := reached.sound
  constructor
  · intro unlinked
    by_contra lags
    obtain ⟨_, other, _, _, next⟩ :=
      sound.represents.next_of_live sound.wellFormed sound.wellFormed.tail_mem lags
    exact absurd (unlinked.symm.trans next) nofun
  · intro last
    rw [show view.tailIndex = view.length - 1 by omega, sound.represents.last]

/-- The producer appends a buffer and moves the tail to it. -/
theorem Reached.appends (reached : Reached state view)
    (here : state.producers producer = .exchangeNext data location (view.buffer view.tailIndex))
    (last : view.tailIndex + 1 = view.length)
    (again : ∀ target : State Producer Value,
      target.producers producer = .loadTail data location →
      Reached target (view.append state.memory.allocated).advanceTail →
      ReturnsAlone target producer) : ReturnsAlone state producer := by
  have unlinked := reached.next_tail.mpr last
  have represents := reached.sound.represents
  refine reached.onward here (by rw [stepProducer, unlinked]) fun target memory there more => ?_
  rw [View.observeProducer, if_pos unlinked, View.observeLink,
    if_pos (by rw [← last, Nat.add_sub_cancel])] at more
  refine more.onward there rfl fun final _ loads most => again final loads ?_
  have tail : target.memory.tailOfQueue = view.buffer view.tailIndex := by
    rw [memory]
    exact represents.tailOfQueue
  rwa [View.observeProducer, View.observeExchange, if_pos tail] at most

/-- The loop ends, as the tail comes to later and later buffers. -/
theorem Reached.loadTail (reached : Reached state view)
    (here : state.producers producer = .loadTail data location) (free : view.Free location) :
    ReturnsAlone state producer := by
  induction remaining : location - bufferSize * view.tailIndex using Nat.strongRecOn
    generalizing state view with
  | ind remaining inductionHypothesis =>
    subst remaining
    have tail := reached.sound.represents.tailOfQueue
    have size := (reached.sound.numberOfElements_eq reached.fits.2 le_rfl).1
    refine reached.onward here (by rw [stepProducer, tail]) fun compares same there more => ?_
    have memory := congrArg Memory.positionInQueue same
    by_cases beyond : bufferSize * (view.tailIndex + 1) ≤ location
    · have last := free.resolve_right (Nat.not_lt.mpr beyond)
      refine more.onward there (by rw [stepProducer, memory, size, if_pos beyond])
        fun loads sameAgain there more => ?_
      have unlinked : loads.memory.next (view.buffer view.tailIndex) = none :=
        more.next_tail.mpr last
      refine more.onward there (by rw [stepProducer, unlinked])
        fun _ _ there more => ?_
      refine more.appends there last fun target there most => ?_
      refine inductionHypothesis _ ?_ most there (Or.inl (congrArg (· + 1) last)) rfl
      change location - bufferSize * (view.tailIndex + 1) < location - bufferSize * view.tailIndex
      simp only [bufferSize] at beyond ⊢
      omega
    · refine more.onward there (by rw [stepProducer, memory, size, if_neg beyond])
        fun _ _ there more => ?_
      exact more.walk le_rfl there

theorem Reached.exchangeTail {newBuffer : Address} (reached : Reached state view)
    (here : state.producers producer = .exchangeTail data location tempTail newBuffer)
    (free : state.memory.tailOfQueue = tempTail ∨ view.Free location) :
    ReturnsAlone state producer := by
  have sound := reached.sound
  have holds := sound.producers producer
  rw [here] at holds
  refine reached.onward here rfl fun _ _ there more => ?_
  rw [View.observeProducer, View.observeExchange] at more
  split_ifs at more with moves
  · refine more.loadTail there (Or.inl ?_)
    rcases holds.2 with ⟨pending, _, _⟩ | ⟨index, bound, same⟩
    · exact pending
    · have below := bound.trans sound.wellFormed.tail_lt
      rw [same, eq_comm, sound.represents.tailOfQueue_eq_iff sound.wellFormed below] at moves
      exact absurd moves (Nat.ne_of_lt bound)
  · exact more.loadTail there (free.resolve_left moves)

theorem Reached.exchangeNext (reached : Reached state view)
    (here : state.producers producer = .exchangeNext data location tempTail)
    (free : view.Free location) : ReturnsAlone state producer := by
  have sound := reached.sound
  have holds := sound.producers producer
  rw [here] at holds
  obtain ⟨_, index, bound, rfl, _⟩ := holds
  by_cases last : index + 1 = view.length
  · obtain rfl : index = view.tailIndex := by
      have tailBound := sound.wellFormed.tail_lt
      omega
    refine reached.appends here last fun target there more => ?_
    exact more.loadTail there (Or.inl (congrArg (· + 1) last))
  · cases next : state.memory.next (view.buffer index) with
    | none =>
      -- the buffer was folded, and what is linked behind it is out of reach
      have apart : view.buffer index ≠ view.buffer (view.length - 1) := by
        intro same
        have tailBound := sound.wellFormed.tail_lt
        have equal := sound.represents.buffer_injective (bound.trans_lt tailBound) (by omega) same
        omega
      refine reached.onward here (by rw [stepProducer, next]) fun _ _ there more => ?_
      rw [View.observeProducer, if_pos next, View.observeLink, if_neg apart] at more
      exact more.exchangeTail there (Or.inr free)
    | some other =>
      refine reached.onward here (by rw [stepProducer, next]) fun _ _ there more => ?_
      rw [View.observeProducer, if_neg (by rw [next]; exact Option.some_ne_none other)] at more
      exact more.loadTail there free

theorem Reached.loadNext (reached : Reached state view)
    (here : state.producers producer = .loadNext data location tempTail)
    (free : view.Free location) : ReturnsAlone state producer := by
  cases next : state.memory.next tempTail with
  | none =>
    refine reached.onward here (by rw [stepProducer, next]) fun _ _ there more => ?_
    exact more.exchangeNext there free
  | some other =>
    refine reached.onward here (by rw [stepProducer, next]) fun _ _ there more => ?_
    exact more.loadTail there free

theorem Reached.compare (reached : Reached state view)
    (here : state.producers producer = .compare data location tempTail)
    (free : numberOfElements (state.memory.positionInQueue tempTail) ≤ location →
      view.Free location) : ReturnsAlone state producer := by
  have holds := reached.sound.producers producer
  rw [here] at holds
  obtain ⟨_, index, bound, rfl⟩ := holds
  by_cases beyond : numberOfElements (state.memory.positionInQueue (view.buffer index)) ≤ location
  · refine reached.onward here (by rw [stepProducer, if_pos beyond]) fun _ _ there more => ?_
    exact more.loadNext there (free beyond)
  · refine reached.onward here (by rw [stepProducer, if_neg beyond]) fun _ _ there more => ?_
    exact more.walk bound there

theorem Reached.claim (reached : Reached state view)
    (here : state.producers producer = .claim data) (free : view.Free state.memory.tail) :
    ReturnsAlone state producer :=
  reached.onward here rfl fun _ _ there more => more.loadTail there free

/-- Where the tail lags, a producer that is not blocked has a location before its buffer's end. -/
theorem Reached.free (reached : Reached state view)
    (unblocked : state.memory.next state.memory.tailOfQueue ≠ none →
      ¬state.memory.tailEnd ≤ location) : view.Free location := by
  have size := (reached.sound.numberOfElements_eq reached.fits.2 le_rfl).1
  rw [reached.sound.represents.tailOfQueue, Ne, reached.next_tail, Memory.tailEnd,
    reached.sound.represents.tailOfQueue, size, Nat.not_le] at unblocked
  exact or_iff_not_imp_left.mpr unblocked

/-- A producer inside enqueue that is not blocked returns. -/
theorem Reached.returnsAlone (reached : Reached state view)
    (inside : state.producers producer ≠ .idle)
    (unblocked : ¬Blocked state.memory (state.producers producer)) :
    ReturnsAlone state producer := by
  rw [Blocked, not_and] at unblocked
  cases here : state.producers producer with
  | idle => exact absurd here inside
  | claim data =>
    rw [here] at unblocked
    exact reached.claim here (reached.free unblocked)
  | loadTail data location =>
    rw [here] at unblocked
    exact reached.loadTail here (reached.free unblocked)
  | compare data location tempTail =>
    rw [here] at unblocked
    refine reached.compare here fun ended => reached.free fun lags passed => ?_
    exact unblocked lags ⟨passed, ended⟩
  | loadNext data location tempTail =>
    rw [here] at unblocked
    exact reached.loadNext here (reached.free unblocked)
  | exchangeNext data location tempTail =>
    rw [here] at unblocked
    exact reached.exchangeNext here (reached.free unblocked)
  | exchangeTail data location tempTail newBuffer =>
    rw [here] at unblocked
    refine reached.exchangeTail here (or_iff_not_imp_left.mpr fun apart => ?_)
    exact reached.free fun lags passed => unblocked lags ⟨Ne.symm apart, passed⟩
  | walk data location tempTail isLastBuffer =>
    have holds := reached.sound.producers producer
    rw [here] at holds
    obtain ⟨_, index, bound, rfl, _⟩ := holds
    exact reached.walk bound here
  | loadSlot => exact reached.loadSlot here
  | publish => exact reached.publish here
  | preallocateNext => exact reached.preallocateNext here
  | preallocateTail => exact reached.preallocateTail here
  | returning => exact .of_returning here

/-- A producer inside enqueue that alone takes steps never returns while it is blocked. In a run
with few enough enqueues it returns after finitely many steps if and only if it is not blocked. -/
theorem returns_alone_iff {labels : List (Label Producer Value)} (run : Run system labels state)
    (inside : state.producers producer ≠ .idle) :
    (FewEnqueues labels →
      (ReturnsAlone state producer ↔ ¬Blocked state.memory (state.producers producer))) ∧
      (Blocked state.memory (state.producers producer) → ¬ReturnsAlone state producer) := by
  have never (blocked : Blocked state.memory (state.producers producer)) :
      ¬ReturnsAlone state producer := blocked.not_returnsAlone (fresh_of_run run)
  refine ⟨fun few => ⟨fun returns blocked => never blocked returns, fun unblocked => ?_⟩, never⟩
  obtain ⟨view, observedRun⟩ := run.withHistory View.initial View.observe
  have reached : Reached state view := ⟨labels, observedRun, few⟩
  exact reached.returnsAlone inside unblocked

end Progress

/-! ### A producer that waits -/

theorem linkNext_next (memory : Memory Value) (tempTail : Address) :
    (memory.linkNext tempTail).next tempTail = some memory.allocated :=
  Function.update_self ..

/-- Accesses of a producer alone. -/
def accesses : Nat → Memory Value × ProducerPc Value → Option (Memory Value × ProducerPc Value)
  | 0, pair => some pair
  | count + 1, pair => (stepProducer pair.1 pair.2).bind (accesses count)

theorem accesses_succ {memory next : Memory Value} {pc nextPc : ProducerPc Value} (count : Nat)
    (step : stepProducer memory pc = some (next, nextPc)) :
    accesses (count + 1) (memory, pc) = accesses count (next, nextPc) := by
  rw [accesses, step, Option.bind_some]

section Accesses

variable [DecidableEq Producer] [DecidableEq Value] [Inhabited Value] {producer : Producer}
  {state : State Producer Value} {memory : Memory Value} {pc : ProducerPc Value} {data : Value}

theorem steps_of_accesses {count : Nat}
    (taken : accesses count (state.memory, state.producers producer) = some (memory, pc)) :
    ∃ target, Steps system state (List.replicate count (.producer producer)) target ∧
      target.memory = memory ∧ target.producers producer = pc ∧
      target.consumer = state.consumer ∧
      ∀ other ≠ producer, target.producers other = state.producers other := by
  induction count generalizing state with
  | zero =>
    obtain ⟨rfl, rfl⟩ := Prod.mk.inj (Option.some_inj.mp taken)
    exact ⟨state, .nil state, rfl, rfl, rfl, fun _ _ => rfl⟩
  | succ count inductionHypothesis =>
    obtain ⟨⟨next, nextPc⟩, step, rest⟩ := Option.bind_eq_some_iff.mp taken
    have performed : perform state (.producer producer) = some { state with
        memory := next
        producers := Function.update state.producers producer nextPc } := by
      simp only [perform, step]
    obtain ⟨target, steps, there, last, consumer, others⟩ := @inductionHypothesis
      { state with
        memory := next
        producers := Function.update state.producers producer nextPc }
      (by simpa only [Function.update_self] using rest)
    refine ⟨target, .cons performed steps, there, last, consumer, fun other different => ?_⟩
    exact (others other different).trans (Function.update_of_ne different ..)

/-- A producer calls enqueue and stops after some accesses. -/
theorem steps_of_call {count : Nat} (idle : state.producers producer = .idle)
    (taken : accesses count (state.memory, .claim data) = some (memory, pc)) :
    ∃ target, Steps system state
        (.enqueueCall producer data :: List.replicate count (.producer producer)) target ∧
      target.memory = memory ∧ target.producers producer = pc ∧
      target.consumer = state.consumer ∧
      ∀ other ≠ producer, target.producers other = state.producers other := by
  have call : perform state (.enqueueCall producer data) = some { state with
      producers := Function.update state.producers producer (.claim data) } := by
    rw [perform, idle]
  obtain ⟨target, steps, there, last, consumer, others⟩ := @steps_of_accesses _ _ _ _ _ producer
    { state with producers := Function.update state.producers producer (.claim data) } memory pc
    count (by
      change accesses count (state.memory, Function.update state.producers producer _ producer) = _
      rwa [Function.update_self])
  refine ⟨target, .cons call steps, there, last, consumer, fun other different => ?_⟩
  exact (others other different).trans (Function.update_of_ne different ..)

/-- A producer calls enqueue and returns. -/
theorem steps_of_return {count : Nat} (idle : state.producers producer = .idle)
    (taken : accesses count (state.memory, .claim data) = some (memory, .returning data)) :
    ∃ target, Steps system state ((.enqueueCall producer data ::
        List.replicate count (Label.producer producer)) ++ [Label.enqueueReturn producer data])
          target ∧
      target.memory = memory ∧ target.consumer = state.consumer ∧
      ∀ other, target.producers other = state.producers other := by
  obtain ⟨target, steps, there, last, consumer, others⟩ := steps_of_call idle taken
  have returns : perform target (.enqueueReturn producer data) = some { target with
      producers := Function.update target.producers producer .idle } := by
    rw [perform, if_pos last]
  refine ⟨_, steps.append (.single returns), there, consumer, fun other => ?_⟩
  by_cases acting : other = producer
  · subst acting
    exact (Function.update_self ..).trans idle.symm
  · exact (Function.update_of_ne acting ..).trans (others other acting)

end Accesses

namespace Sample

/-- One producer enqueues a value and returns. -/
def enqueueOnce (producer : Bool) : List (Label Bool Nat) :=
  (.enqueueCall producer 7 :: List.replicate 6 (Label.producer producer)) ++
    [Label.enqueueReturn producer 7]

/-- One producer fills the first buffer up to its last slot but one, and stops after it has
appended the next buffer and before it moves the tail. -/
def stopped : List (Label Bool Nat) :=
  (List.replicate 1618 (enqueueOnce false)).flatten ++
    (.enqueueCall false 7 :: List.replicate 7 (Label.producer false))

/-- One producer fills the first buffer up to its last slot but one, and stops after it has
appended the next buffer and before it moves the tail; another one fills the last slot, and calls
enqueue once more. -/
def paused : List (Label Bool Nat) :=
  (List.replicate 1618 (enqueueOnce false)).flatten ++
    (.enqueueCall false 7 :: List.replicate 7 (Label.producer false)) ++ enqueueOnce true ++
    [Label.enqueueCall true 7]

/-- The slots of the first buffer have been claimed and filled up to one of them. -/
structure Begun (count : Nat) (memory : Memory Nat) : Prop where
  tail : memory.tail = count
  tailOfQueue : memory.tailOfQueue = 0
  position : memory.positionInQueue 0 = 1
  empty : ∀ index, count ≤ index → memory.isSet 0 index = .EMPTY

section Begun

variable {memory : Memory Nat} {count : Nat} (begun : Begun count memory) (inside : count < 1620)
include begun

/-- The memory after the next slot has been filled. -/
def filled (count : Nat) (memory : Memory Nat) : Memory Nat :=
  { memory with tail := count + 1 }.fillSlot 0 count 7

theorem Begun.filled : Begun (count + 1) (filled count memory) where
  tail := rfl
  tailOfQueue := begun.tailOfQueue
  position := begun.position
  empty index behind := by
    refine (update_entry memory.isSet 0 0 count index .SET).trans ?_
    rw [if_neg fun both => Nat.ne_of_gt behind both.2]
    exact begun.empty index (Nat.le_of_succ_le behind)

include inside

theorem Begun.publishes (more : Nat) : accesses (more + 5) (memory, .claim 7) =
    accesses more ({ memory with tail := count + 1 }, .publish 7 count 0 0 true) := by
  have ends : numberOfElements 1 = 1620 := by decide
  have starts : prevSize 1 = 0 := by decide
  have small : wrap (count + 1) = count + 1 := wrap_of_lt (by omega)
  have claim : stepProducer memory (.claim 7) =
      some ({ memory with tail := count + 1 }, .loadTail 7 count) := by
    rw [stepProducer, begun.tail, small]
  generalize claimed : { memory with tail := count + 1 } = next at claim
  have tailOfQueue : next.tailOfQueue = 0 := claimed ▸ begun.tailOfQueue
  have position : next.positionInQueue 0 = 1 := claimed ▸ begun.position
  have empty : next.isSet 0 count = .EMPTY := claimed ▸ begun.empty count le_rfl
  have loadTail : stepProducer next (.loadTail 7 count) = some (next, .compare 7 count 0) := by
    rw [stepProducer, tailOfQueue]
  have compare : stepProducer next (.compare 7 count 0) = some (next, .walk 7 count 0 true) := by
    rw [stepProducer, position, ends, if_neg (Nat.not_le.mpr inside)]
  have walk : stepProducer next (.walk 7 count 0 true) =
      some (next, .loadSlot 7 count 0 0 true) := by
    rw [stepProducer, position, starts, if_neg (Nat.not_lt_zero count)]
  have loadSlot : stepProducer next (.loadSlot 7 count 0 0 true) =
      some (next, .publish 7 count 0 0 true) := by
    rw [stepProducer, Nat.sub_zero, if_pos empty]
  rw [accesses_succ _ claim, accesses_succ _ loadTail, accesses_succ _ compare,
    accesses_succ _ walk, accesses_succ _ loadSlot]

/-- Where the slot is not the last but one, the call returns. -/
theorem Begun.enqueues (notTrigger : count ≠ 1618) :
    accesses 6 (memory, .claim 7) = some (Sample.filled count memory, .returning 7) := by
  have publish : stepProducer { memory with tail := count + 1 } (.publish 7 count 0 0 true) =
      some (Sample.filled count memory, .returning 7) := by
    rw [stepProducer, if_neg fun both => notTrigger both.1]
    rfl
  rw [begun.publishes inside, accesses_succ _ publish, accesses]

omit inside in
/-- The call that fills the last slot but one goes on to append a buffer. -/
theorem Begun.triggers (trigger : count = 1618) (more : Nat) :
    accesses (more + 6) (memory, .claim 7) =
      accesses more (Sample.filled count memory, .preallocateNext 7 0) := by
  subst trigger
  have publish : stepProducer { memory with tail := 1619 } (.publish 7 1618 0 0 true) =
      some (Sample.filled 1618 memory, .preallocateNext 7 0) := by
    rw [stepProducer, if_pos ⟨rfl, rfl⟩]
    rfl
  rw [begun.publishes (by decide) (more + 1), accesses_succ _ publish]

omit inside in
/-- The call that fills the last slot but one appends a buffer, and stops before it moves the
tail. -/
theorem Begun.preallocates (trigger : count = 1618) (unlinked : memory.next 0 = none) :
    accesses 7 (memory, .claim 7) =
      some ((Sample.filled count memory).linkNext 0, .preallocateTail 7 0 memory.allocated) := by
  have still : (Sample.filled count memory).next 0 = none := unlinked
  have preallocateNext : stepProducer (Sample.filled count memory) (.preallocateNext 7 0) =
      some ((Sample.filled count memory).linkNext 0, .preallocateTail 7 0 memory.allocated) := by
    rw [stepProducer, still]
    rfl
  rw [begun.triggers trigger 1, accesses_succ _ preallocateNext, accesses]

omit inside in
theorem Begun.linkNext (allocated : memory.allocated = 1) : Begun count (memory.linkNext 0) where
  tail := begun.tail
  tailOfQueue := begun.tailOfQueue
  position := by
    have apart : (0 : Address) ≠ memory.allocated := by rw [allocated]; decide
    exact (Function.update_of_ne apart ..).trans begun.position
  empty index behind := by
    have apart : (0 : Address) ≠ memory.allocated := by rw [allocated]; decide
    exact (congrFun (Function.update_of_ne apart ..) index).trans (begun.empty index behind)

end Begun

/-- The memory after one call after another has filled the first slots. -/
def filling : Nat → Memory Nat
  | 0 => .construct
  | count + 1 => filled count (filling count)

theorem begun_filling (count : Nat) : Begun count (filling count) := by
  induction count with
  | zero => exact ⟨rfl, rfl, rfl, fun _ _ => rfl⟩
  | succ count inductionHypothesis => exact inductionHypothesis.filled

/-- The consumer has not moved, no buffer has been linked, and the first slots are filled. -/
structure Untouched (count : Nat) (memory : Memory Nat) : Prop where
  headOfQueue : memory.headOfQueue = 0
  garbageListHead : memory.garbageListHead = none
  head : memory.head 0 = 0
  next : memory.next 0 = none
  allocated : memory.allocated = 1
  slot : ∀ index < count, memory.isSet 0 index = .SET ∧ memory.data 0 index = 7

/-- The next slot is filled with the others. -/
theorem slot_filled {count : Nat} {memory : Memory Nat}
    (slot : ∀ index < count, memory.isSet 0 index = .SET ∧ memory.data 0 index = 7) :
    ∀ index < count + 1,
      (filled count memory).isSet 0 index = .SET ∧ (filled count memory).data 0 index = 7 := by
  intro index below
  have state := update_entry memory.isSet 0 0 count index .SET
  have value := update_entry memory.data 0 0 count index 7
  rcases Nat.lt_succ_iff_lt_or_eq.mp below with before | rfl
  · rw [if_neg fun both => Nat.ne_of_lt before both.2] at state value
    exact ⟨state.trans (slot index before).1, value.trans (slot index before).2⟩
  · rw [if_pos ⟨rfl, rfl⟩] at state value
    exact ⟨state, value⟩

theorem Untouched.filled {count : Nat} {memory : Memory Nat} (untouched : Untouched count memory) :
    Untouched (count + 1) (filled count memory) :=
  { untouched with slot := slot_filled untouched.slot }

theorem untouched_filling (count : Nat) : Untouched count (filling count) := by
  induction count with
  | zero => exact ⟨rfl, rfl, rfl, rfl, rfl, fun _ below => absurd below (Nat.not_lt_zero _)⟩
  | succ count inductionHypothesis => exact inductionHypothesis.filled

/-- One call after another fills the first buffer. -/
theorem begun_run (count : Nat) (before : count ≤ 1618) : ∃ state,
    Run system (List.replicate count (enqueueOnce false)).flatten state ∧
      state.memory = filling count ∧ state.consumer = .idle ∧
      ∀ producer, state.producers producer = .idle := by
  induction count with
  | zero => exact ⟨.start, .start rfl, rfl, rfl, fun _ => rfl⟩
  | succ count inductionHypothesis =>
    obtain ⟨state, run, memory, asleep, idle⟩ := inductionHypothesis (Nat.le_of_succ_le before)
    have begun : Begun count state.memory := memory ▸ begun_filling count
    obtain ⟨target, steps, after, consumer, others⟩ :=
      steps_of_return (idle false) (begun.enqueues (by omega) (by omega))
    refine ⟨target, ?_, ?_, consumer.trans asleep,
      fun producer => (others producer).trans (idle producer)⟩
    · rw [List.replicate_succ', List.flatten_append, List.flatten_singleton]
      exact run.append steps
    · rw [after, memory]
      rfl

end Sample

/-- One producer has stopped after it has appended a buffer and before it moves the tail; another
one, whose slot is the last of the first buffer, returns all the same. -/
theorem returns_alone_iff_sample : ∃ state,
    Run system (Sample.stopped ++ [Label.enqueueCall true 7]) state ∧
    state.producers false = .preallocateTail 7 0 1 ∧ ReturnsAlone state true := by
  obtain ⟨first, run, start, _, idle⟩ := Sample.begun_run 1618 le_rfl
  have begun : Sample.Begun 1618 first.memory := start ▸ Sample.begun_filling 1618
  have untouched : Sample.Untouched 1618 first.memory := start ▸ Sample.untouched_filling 1618
  obtain ⟨second, stops, memory, stopped, _, others⟩ :=
    steps_of_call (idle false) (begun.preallocates rfl untouched.next)
  have linked : Sample.Begun 1619 second.memory := by
    rw [memory]
    exact begun.filled.linkNext untouched.allocated
  have waiting : second.producers true = .idle := (others true Bool.noConfusion).trans (idle true)
  have call : system.step second (.enqueueCall true 7) { second with
      producers := Function.update second.producers true (.claim 7) } := by
    change perform second (.enqueueCall true 7) = _
    rw [perform, waiting]
  have whole := (run.append stops).append (.single call)
  have here : Function.update second.producers true (.claim 7) true = .claim 7 :=
    Function.update_self ..
  have still : Function.update second.producers true (.claim 7) false = second.producers false :=
    Function.update_of_ne Bool.false_ne_true ..
  refine ⟨_, whole, ?_, ((returns_alone_iff whole ?_).1 (by decide +kernel)).mpr fun blocked => ?_⟩
  · rw [untouched.allocated] at stopped
    exact still.trans stopped
  · intro outside
    cases here.symm.trans outside
  · have beyond : ProducerPc.Beyond second.memory (.claim 7) := here ▸ blocked.2
    rw [ProducerPc.Beyond, Memory.tailEnd, linked.tailOfQueue, linked.position, linked.tail]
      at beyond
    exact absurd beyond (by decide)

/-- A producer that calls enqueue behind one that has stopped never returns. -/
theorem paused_producer_blocks : ∃ state, Run system Sample.paused state ∧
    state.producers true = .claim 7 ∧ ¬ReturnsAlone state true := by
  obtain ⟨first, run, start, _, idle⟩ := Sample.begun_run 1618 le_rfl
  have begun : Sample.Begun 1618 first.memory := start ▸ Sample.begun_filling 1618
  have untouched : Sample.Untouched 1618 first.memory := start ▸ Sample.untouched_filling 1618
  obtain ⟨second, stops, memory, _, _, others⟩ :=
    steps_of_call (idle false) (begun.preallocates rfl untouched.next)
  have linked : Sample.Begun 1619 second.memory := by
    rw [memory]
    exact begun.filled.linkNext untouched.allocated
  have waiting : second.producers true = .idle := (others true Bool.noConfusion).trans (idle true)
  obtain ⟨third, returns, memoryAfter, _, others⟩ :=
    steps_of_return waiting (linked.enqueues (by decide) (by decide))
  have full : Sample.Begun 1620 third.memory := by
    rw [memoryAfter]
    exact linked.filled
  have call : system.step third (.enqueueCall true 7) { third with
      producers := Function.update third.producers true (.claim 7) } := by
    have still := (others true).trans waiting
    change perform third (.enqueueCall true 7) = _
    rw [perform, still]
  have whole := ((run.append stops).append returns).append (.single call)
  have here : Function.update third.producers true (.claim 7) true = .claim 7 :=
    Function.update_self ..
  have lags : third.memory.next third.memory.tailOfQueue ≠ none := by
    rw [full.tailOfQueue, memoryAfter]
    change second.memory.next 0 ≠ none
    rw [memory, linkNext_next]
    exact Option.some_ne_none _
  have beyond : ProducerPc.Beyond third.memory (.claim 7) := by
    rw [ProducerPc.Beyond, Memory.tailEnd, full.tailOfQueue, full.position, full.tail]
    decide
  refine ⟨_, whole, here, Blocked.not_returnsAlone (fresh_of_run whole) ⟨lags, ?_⟩⟩
  exact here.symm ▸ beyond

end MarketSandbox.MPSCQueue
