/-
This file models the engine's thread and its shutdown. The thread dequeues
messages and processes them, and looks at the running flag when it finds the
queue empty; handlers enqueue a message and wait for their promise; `stop`
clears the flag and joins the thread. Everything that a handler has enqueued
before the stop is processed, unless the flag is cleared between the thread's
failed dequeue and its look at the flag while such a message is in the queue.
-/

import MarketSandbox.Exchange.Engine
import Mathlib.Data.List.TakeWhile

namespace MarketSandbox

open Transition

variable {Price : Type}

/-! ### The thread, the handlers and the stop -/

/-- Where `MatchingEngine::run` stands: before a dequeue, with a message to process, before the
load of `_running`, or after the loop. -/
inductive WorkerPc (Price : Type)
  | dequeue
  | process (message : QueueMessage Price)
  | check
  | left

/-- Where a handler stands: before its enqueue, in it, waiting for its promise, or after it. -/
inductive HandlerPc (Price : Type)
  | idle
  | enqueueing
  | waiting
  | answered (result : EngineResult Price)

/-- Where `stop` stands: before its call, before its store, before the end of its join, or after. -/
inductive StopPc
  | notCalled
  | called
  | stored
  | joined
  deriving DecidableEq

/-- A started engine with its queue, the handlers by the names of their promises, and the
promises that are set. -/
structure Worker (Price : Type) [LT Price] where
  queue : List (QueueMessage Price)
  book : OrderBook Price
  running : Bool
  pc : WorkerPc Price
  stop : StopPc
  handlers : Nat → HandlerPc Price
  promises : Nat → Option (EngineResult Price)

/-- The steps. -/
inductive WorkerLabel (Price : Type) [LT Price]
  | enqueue (name : Nat) (message : QueueMessage Price)
  | returned (name : Nat)
  | wake (name : Nat) (result : EngineResult Price)
  | dequeue (taken : Option (QueueMessage Price))
  | process (record : Record Price)
  | load (running : Bool)
  | callStop
  | store
  | join

section Model

variable [PriceOperations Price]

/-- A started engine. -/
def Worker.initial : Worker Price where
  queue := []
  book := .empty
  running := true
  pc := .dequeue
  stop := .notCalled
  handlers _ := .idle
  promises _ := none

/-- `_queue.dequeue(msg)`: take the oldest message, or turn to the flag. -/
def Worker.dequeued (worker : Worker Price) : Option (QueueMessage Price) × Worker Price :=
  match worker.queue with
  | [] => (none, { worker with pc := .check })
  | message :: rest => (some message, { worker with queue := rest, pc := .process message })

/-- The thread, the handlers and the stop as a transition system. -/
def workerSystem (Price : Type) [PriceOperations Price] :
    System (Worker Price) (WorkerLabel Price) where
  initial worker := worker = .initial
  step source label target :=
    match label with
    | .enqueue name message => source.handlers name = .idle ∧
        message.resultPromise = some name ∧
        target = { source with
          queue := source.queue ++ [message]
          handlers := Function.update source.handlers name .enqueueing }
    | .returned name => source.handlers name = .enqueueing ∧
        target = { source with handlers := Function.update source.handlers name .waiting }
    | .wake name result => source.handlers name = .waiting ∧
        source.promises name = some result ∧
        target =
          { source with handlers := Function.update source.handlers name (.answered result) }
    | .dequeue taken => source.pc = .dequeue ∧ (taken, target) = source.dequeued
    | .process record => ∃ message name, source.pc = .process message ∧
        message.resultPromise = some name ∧ record.operation = message.payload ∧
        (bookSystem Price).step source.book record record.after ∧
        target = { source with
          book := record.after
          promises := Function.update source.promises name (some record.result)
          pc := .dequeue }
    | .load running => source.pc = .check ∧ running = source.running ∧
        target = { source with pc := if running then .dequeue else .left }
    | .callStop => source.stop = .notCalled ∧ target = { source with stop := .called }
    | .store => source.stop = .called ∧
        target = { source with running := false, stop := .stored }
    | .join => source.stop = .stored ∧ source.pc = .left ∧
        target = { source with stop := .joined }

/-- A run of a started engine. -/
abbrev WorkerRun (labels : List (WorkerLabel Price)) (worker : Worker Price) : Prop :=
  Run (workerSystem Price) labels worker

/-- The labels of a run say where it leads. -/
theorem WorkerRun.unique {labels : List (WorkerLabel Price)} {first second : Worker Price}
    (left : WorkerRun labels first) (right : WorkerRun labels second) : first = second := by
  refine Run.unique left right (fun one other isOne isOther => isOne.trans isOther.symm) ?_
  intro source label one other stepOne stepOther
  cases label with
  | enqueue | wake | load | join => exact stepOne.2.2.trans stepOther.2.2.symm
  | returned | callStop | store => exact stepOne.2.trans stepOther.2.symm
  | dequeue taken => exact congrArg Prod.snd (stepOne.2.trans stepOther.2.symm)
  | process record =>
    obtain ⟨message, name, isMessage, isName, _, _, rfl⟩ := stepOne
    obtain ⟨_, _, isSame, isSameName, _, _, rfl⟩ := stepOther
    obtain rfl := WorkerPc.process.inj (isMessage.symm.trans isSame)
    obtain rfl := Option.some.inj (isName.symm.trans isSameName)
    rfl

end Model

/-! ### Who returned before the stop -/

section Labels

variable [LT Price]

/-- The call of `stop`. -/
def WorkerLabel.isCallStop : WorkerLabel Price → Bool
  | .callStop => true
  | _ => false

/-- The handler whose enqueue returns. -/
def WorkerLabel.returned? : WorkerLabel Price → Option Nat
  | .returned name => some name
  | _ => none

/-- The handlers whose enqueue returned before `stop` was called. -/
def returnedBeforeStop (labels : List (WorkerLabel Price)) : List Nat :=
  (labels.takeWhile fun label => !label.isCallStop).filterMap WorkerLabel.returned?

theorem returnedBeforeStop_stopped {labels : List (WorkerLabel Price)}
    (stopped : ∃ label ∈ labels, label.isCallStop) (back : List (WorkerLabel Price)) :
    returnedBeforeStop (labels ++ back) = returnedBeforeStop labels := by
  have notAll : ¬ ∀ label ∈ labels, (!label.isCallStop) = true := by
    intro all
    obtain ⟨label, member, isStop⟩ := stopped
    simpa [isStop] using all label member
  rw [returnedBeforeStop, List.takeWhile_append, if_neg, returnedBeforeStop]
  intro whole
  exact notAll (List.takeWhile_eq_self_iff.mp
    ((List.takeWhile_prefix _).eq_of_length whole))

theorem mem_returnedBeforeStop_append {labels back : List (WorkerLabel Price)} {name : Nat}
    (member : name ∈ returnedBeforeStop (labels ++ back)) :
    name ∈ returnedBeforeStop labels ∨ .returned name ∈ back := by
  rw [returnedBeforeStop, List.takeWhile_append] at member
  split_ifs at member with whole
  · rw [List.filterMap_append, List.mem_append] at member
    refine member.imp (fun inFront => ?_) fun inBack => ?_
    · rw [returnedBeforeStop, (List.takeWhile_prefix _).eq_of_length whole]
      exact inFront
    · obtain ⟨label, inTaken, isReturned⟩ := List.mem_filterMap.mp inBack
      cases label with
      | returned other =>
        obtain rfl := Option.some.inj isReturned
        exact List.takeWhile_subset _ inTaken
      | _ => cases isReturned
  · exact .inl member

end Labels

/-! ### What holds of every run -/

section Invariants

variable [LT Price]

/-- The message that the thread has dequeued and not processed. -/
def WorkerPc.held? : WorkerPc Price → Option (QueueMessage Price)
  | .process message => some message
  | _ => none

/-- The promises of the messages in the queue. -/
def Worker.queued (worker : Worker Price) : List Nat :=
  worker.queue.filterMap QueueMessage.resultPromise

/-- The promises of the messages in the queue or with the thread. -/
def Worker.pending (worker : Worker Price) : List Nat :=
  (worker.pc.held?.toList ++ worker.queue).filterMap QueueMessage.resultPromise

/-- Each handler's message is pending until its promise is set; the flag is up until the store, and
the thread has not left before. -/
structure Worker.Consistent (worker : Worker Price) : Prop where
  distinct : worker.pending.Nodup
  unset : ∀ name ∈ worker.pending, worker.promises name = none
  fresh : ∀ name, worker.handlers name = .idle →
    name ∉ worker.pending ∧ worker.promises name = none
  accounted : ∀ name, worker.handlers name ≠ .idle →
    name ∈ worker.pending ∨ (worker.promises name).isSome
  stopped : worker.running = false → worker.stop ≠ .notCalled ∧ worker.stop ≠ .called
  stays : worker.pc = .left → worker.running = false

theorem Worker.queued_subset (worker : Worker Price) : worker.queued ⊆ worker.pending := by
  rw [Worker.queued, Worker.pending, List.filterMap_append]
  exact List.subset_append_right _ _

end Invariants

variable [PriceOperations Price]

theorem Worker.Consistent.initial : (Worker.initial : Worker Price).Consistent where
  distinct := List.nodup_nil
  unset _ member := nomatch member
  fresh _ _ := ⟨List.not_mem_nil, rfl⟩
  accounted _ busy := absurd rfl busy
  stopped isDown := nomatch isDown
  stays isLeft := nomatch isLeft

section Step

variable {source : Worker Price}

/-- A new message is pending. -/
theorem Worker.Consistent.enqueue (consistent : source.Consistent) {name : Nat}
    {message : QueueMessage Price} (isIdle : source.handlers name = .idle)
    (isName : message.resultPromise = some name) :
    ({ source with
      queue := source.queue ++ [message]
      handlers := Function.update source.handlers name .enqueueing } :
        Worker Price).Consistent := by
  obtain ⟨distinct, unset, fresh, accounted, stopped, stays⟩ := consistent
  have added : (source.pc.held?.toList ++ (source.queue ++ [message])).filterMap
      QueueMessage.resultPromise = source.pending ++ [name] := by
    rw [← List.append_assoc, List.filterMap_append, ← Worker.pending]
    simp [isName]
  refine ⟨?_, fun other member => ?_, fun other otherIdle => ?_, fun other busy => ?_, stopped,
    stays⟩
  · rw [Worker.pending, added]
    exact distinct.append (List.nodup_singleton name)
      (List.disjoint_singleton.mpr (fresh name isIdle).1)
  · rw [Worker.pending, added, List.mem_append, List.mem_singleton] at member
    rcases member with old | rfl
    · exact unset other old
    · exact (fresh other isIdle).2
  · simp only [Function.update_apply] at otherIdle
    split_ifs at otherIdle with same
    obtain ⟨absent, isNone⟩ := fresh other otherIdle
    refine ⟨fun member => ?_, isNone⟩
    rw [Worker.pending, added, List.mem_append, List.mem_singleton] at member
    exact member.elim absent same
  · rw [Worker.pending, added, List.mem_append, List.mem_singleton]
    by_cases same : other = name
    · exact .inl (.inr same)
    · simp only [Function.update_apply, if_neg same] at busy
      exact (accounted other busy).imp_left .inl

/-- A handler that has begun goes on. -/
theorem Worker.Consistent.handle (consistent : source.Consistent) {name : Nat}
    {pc : HandlerPc Price} (begun : source.handlers name ≠ .idle) (notIdle : pc ≠ .idle) :
    ({ source with handlers := Function.update source.handlers name pc } :
      Worker Price).Consistent := by
  obtain ⟨distinct, unset, fresh, accounted, stopped, stays⟩ := consistent
  refine ⟨distinct, unset, fun other otherIdle => ?_, fun other busy => ?_, stopped, stays⟩
  · simp only [Function.update_apply] at otherIdle
    split_ifs at otherIdle with same
    · exact absurd otherIdle notIdle
    · exact fresh other otherIdle
  · by_cases same : other = name
    · exact accounted other (same ▸ begun)
    · simp only [Function.update_apply, if_neg same] at busy
      exact accounted other busy

/-- A dequeue leaves the same messages pending, or finds none. -/
theorem Worker.Consistent.dequeued (consistent : source.Consistent)
    (atDequeue : source.pc = .dequeue) : source.dequeued.2.Consistent := by
  obtain ⟨distinct, unset, fresh, accounted, stopped, _⟩ := consistent
  have samePending : source.dequeued.2.pending = source.pending := by
    rw [Worker.dequeued, Worker.pending, Worker.pending, atDequeue]
    cases source.queue <;> rfl
  have kept : source.dequeued.2.promises = source.promises ∧
      source.dequeued.2.handlers = source.handlers ∧
      source.dequeued.2.running = source.running ∧ source.dequeued.2.stop = source.stop ∧
      source.dequeued.2.pc ≠ .left := by
    rw [Worker.dequeued]
    cases source.queue <;> exact ⟨rfl, rfl, rfl, rfl, fun none => nomatch none⟩
  obtain ⟨promises, handlers, running, stop, notLeft⟩ := kept
  refine ⟨?_, ?_, ?_, ?_, ?_, fun isLeft => absurd isLeft notLeft⟩
  · rwa [samePending]
  · rwa [samePending, promises]
  · rwa [samePending, promises, handlers]
  · rwa [samePending, promises, handlers]
  · rwa [running, stop]

/-- The message that is processed is no longer pending, and its promise is set. -/
theorem Worker.Consistent.process (consistent : source.Consistent) {name : Nat}
    {message : QueueMessage Price} (atProcess : source.pc = .process message)
    (isName : message.resultPromise = some name) (book : OrderBook Price)
    (result : EngineResult Price) :
    ({ source with
      book := book
      promises := Function.update source.promises name (some result)
      pc := .dequeue } : Worker Price).Consistent := by
  obtain ⟨distinct, unset, fresh, accounted, stopped, _⟩ := consistent
  have wasPending : source.pending =
      name :: source.queue.filterMap QueueMessage.resultPromise := by
    rw [Worker.pending, atProcess]
    simp [WorkerPc.held?, isName]
  rw [wasPending] at distinct unset fresh accounted
  obtain ⟨absent, distinctQueue⟩ := List.nodup_cons.mp distinct
  refine ⟨distinctQueue, fun other member => ?_, fun other isIdle => ?_, fun other busy => ?_,
    stopped, fun isLeft => nomatch isLeft⟩
  · have different : other ≠ name := fun same => absent (same ▸ member)
    simp only [Function.update_apply, if_neg different]
    exact unset other (List.mem_cons_of_mem _ member)
  · obtain ⟨notPending, isNone⟩ := fresh other isIdle
    have different : other ≠ name := fun same => notPending (same ▸ List.mem_cons_self)
    refine ⟨fun member => notPending (List.mem_cons_of_mem _ member), ?_⟩
    simp only [Function.update_apply, if_neg different]
    exact isNone
  · by_cases same : other = name
    · simp [same]
    · simp only [Function.update_apply, if_neg same]
      exact (accounted other busy).imp_left fun member =>
        (List.mem_cons.mp member).resolve_left same

end Step

theorem Worker.Consistent.step {source target : Worker Price} {label : WorkerLabel Price}
    (consistent : source.Consistent) (step : (workerSystem Price).step source label target) :
    target.Consistent := by
  cases label with
  | enqueue name message =>
    obtain ⟨isIdle, isName, rfl⟩ := step
    exact consistent.enqueue isIdle isName
  | returned name =>
    obtain ⟨isEnqueueing, rfl⟩ := step
    exact consistent.handle (by rw [isEnqueueing]; exact fun none => nomatch none)
      fun none => nomatch none
  | wake name result =>
    obtain ⟨isWaiting, _, rfl⟩ := step
    exact consistent.handle (by rw [isWaiting]; exact fun none => nomatch none)
      fun none => nomatch none
  | dequeue taken =>
    obtain ⟨atDequeue, isTaken⟩ := step
    obtain rfl : target = source.dequeued.2 := congrArg Prod.snd isTaken
    exact consistent.dequeued atDequeue
  | process record =>
    obtain ⟨message, name, atProcess, isName, _, _, rfl⟩ := step
    exact consistent.process atProcess isName _ _
  | load running =>
    obtain ⟨atCheck, isRunning, rfl⟩ := step
    obtain ⟨distinct, unset, fresh, accounted, stopped, _⟩ := consistent
    have samePending : ({ source with pc := if running then .dequeue else .left } :
        Worker Price).pending = source.pending := by
      rw [Worker.pending, Worker.pending, atCheck]
      cases running <;> rfl
    refine ⟨samePending ▸ distinct, samePending ▸ unset, samePending ▸ fresh,
      samePending ▸ accounted, stopped, fun isLeft => ?_⟩
    cases running with
    | false => exact isRunning.symm
    | true => cases isLeft
  | callStop =>
    obtain ⟨notCalled, rfl⟩ := step
    obtain ⟨distinct, unset, fresh, accounted, stopped, stays⟩ := consistent
    refine ⟨distinct, unset, fresh, accounted, fun isDown => ?_, stays⟩
    exact absurd notCalled (stopped isDown).1
  | store =>
    obtain ⟨_, rfl⟩ := step
    obtain ⟨distinct, unset, fresh, accounted, _, _⟩ := consistent
    exact ⟨distinct, unset, fresh, accounted,
      fun _ => ⟨(fun none => nomatch none), (fun none => nomatch none)⟩, fun _ => rfl⟩
  | join =>
    obtain ⟨_, _, rfl⟩ := step
    obtain ⟨distinct, unset, fresh, accounted, _, stays⟩ := consistent
    exact ⟨distinct, unset, fresh, accounted,
      fun _ => ⟨(fun none => nomatch none), (fun none => nomatch none)⟩, stays⟩

theorem WorkerRun.consistent {labels : List (WorkerLabel Price)} {worker : Worker Price}
    (run : WorkerRun labels worker) : worker.Consistent := by
  refine run.invariant (fun _ worker => worker.Consistent) ?_ ?_
  · rintro _ rfl
    exact .initial
  · intro _ _ _ _ _ consistent step
    exact consistent.step step

/-- The stop is in the labels once it has been called, and the handlers that returned before it
have begun. -/
structure Told (labels : List (WorkerLabel Price)) (worker : Worker Price) : Prop where
  called : worker.stop ≠ .notCalled → ∃ label ∈ labels, label.isCallStop
  begun : ∀ name ∈ returnedBeforeStop labels, worker.handlers name ≠ .idle

section Step

variable {source target : Worker Price} {label : WorkerLabel Price}

/-- A handler that has begun does not become idle. -/
theorem Worker.begun_step (step : (workerSystem Price).step source label target) {name : Nat}
    (begun : source.handlers name ≠ .idle) : target.handlers name ≠ .idle := by
  have updated : ∀ other (pc : HandlerPc Price), pc ≠ .idle →
      Function.update source.handlers other pc name ≠ .idle := by
    intro other pc notIdle
    rw [Function.update_apply]
    split_ifs
    · exact notIdle
    · exact begun
  cases label with
  | enqueue other message =>
    obtain ⟨_, _, rfl⟩ := step
    exact updated other .enqueueing fun none => nomatch none
  | returned other =>
    obtain ⟨_, rfl⟩ := step
    exact updated other .waiting fun none => nomatch none
  | wake other result =>
    obtain ⟨_, _, rfl⟩ := step
    exact updated other (.answered result) fun none => nomatch none
  | dequeue taken =>
    obtain ⟨_, isTaken⟩ := step
    obtain rfl : target = source.dequeued.2 := congrArg Prod.snd isTaken
    rw [Worker.dequeued]
    cases source.queue <;> exact begun
  | process record =>
    obtain ⟨_, _, _, _, _, _, rfl⟩ := step
    exact begun
  | load | join =>
    obtain ⟨_, _, rfl⟩ := step
    exact begun
  | callStop | store =>
    obtain ⟨_, rfl⟩ := step
    exact begun

/-- Only the call of `stop` begins the stop. -/
theorem Worker.stop_step (step : (workerSystem Price).step source label target)
    (isCalled : target.stop ≠ .notCalled) : source.stop ≠ .notCalled ∨ label.isCallStop := by
  cases label with
  | enqueue | wake | load =>
    obtain ⟨_, _, rfl⟩ := step
    exact .inl isCalled
  | returned =>
    obtain ⟨_, rfl⟩ := step
    exact .inl isCalled
  | dequeue taken =>
    obtain ⟨_, isTaken⟩ := step
    obtain rfl : target = source.dequeued.2 := congrArg Prod.snd isTaken
    rw [Worker.dequeued] at isCalled
    refine .inl ?_
    cases queue : source.queue <;> rw [queue] at isCalled <;> exact isCalled
  | process record =>
    obtain ⟨_, _, _, _, _, _, rfl⟩ := step
    exact .inl isCalled
  | callStop => exact .inr rfl
  | store =>
    obtain ⟨wasCalled, _⟩ := step
    exact .inl fun notCalled => by rw [notCalled] at wasCalled; cases wasCalled
  | join =>
    obtain ⟨wasStored, _, _⟩ := step
    exact .inl fun notCalled => by rw [notCalled] at wasStored; cases wasStored

theorem Told.step {labels : List (WorkerLabel Price)} (told : Told labels source)
    (step : (workerSystem Price).step source label target) : Told (labels ++ [label]) target := by
  constructor
  · intro isCalled
    rcases Worker.stop_step step isCalled with wasCalled | isCall
    · obtain ⟨other, member, isStop⟩ := told.called wasCalled
      exact ⟨other, List.mem_append_left _ member, isStop⟩
    · exact ⟨label, List.mem_append_right _ List.mem_cons_self, isCall⟩
  · intro name member
    rcases mem_returnedBeforeStop_append member with old | isReturn
    · exact Worker.begun_step step (told.begun name old)
    · obtain rfl := List.mem_singleton.mp isReturn
      obtain ⟨_, rfl⟩ := step
      simp only [Function.update_self]
      exact fun none => nomatch none

end Step

theorem WorkerRun.told {labels : List (WorkerLabel Price)} {worker : Worker Price}
    (run : WorkerRun labels worker) : Told labels worker := by
  refine run.invariant Told ?_ ?_
  · rintro _ rfl
    exact ⟨fun isCalled => absurd rfl isCalled, fun _ member => nomatch member⟩
  · intro _ _ _ _ _ told step
    exact told.step step

/-! ### Draining -/

/-- The stop falls between a failed dequeue and the look at the flag, while the queue holds a
message whose enqueue returned before the stop was called. -/
def Worker.Misses (worker : Worker Price) (labels : List (WorkerLabel Price)) : Prop :=
  worker.pc = .check ∧ ∃ name ∈ returnedBeforeStop labels, name ∈ worker.queued

/-- Once the flag is down, the thread does not turn away from such a message. -/
def Worker.Turned (labels : List (WorkerLabel Price)) (worker : Worker Price) : Prop :=
  worker.running = false → worker.pc = .check ∨ worker.pc = .left →
    ∀ name ∈ returnedBeforeStop labels, name ∉ worker.queued

theorem Worker.Turned.step {labels : List (WorkerLabel Price)} {source target : Worker Price}
    {label : WorkerLabel Price} (turned : source.Turned labels) (consistent : source.Consistent)
    (told : Told labels source) (step : (workerSystem Price).step source label target)
    (meets : label = .store → ¬ source.Misses labels) : target.Turned (labels ++ [label]) := by
  -- Once the flag is down, the handlers that returned before the stop are fixed.
  have fixed : source.running = false →
      returnedBeforeStop (labels ++ [label]) = returnedBeforeStop labels := fun isDown =>
    returnedBeforeStop_stopped (told.called (consistent.stopped isDown).1) [label]
  intro isDown away name member
  cases label with
  | enqueue other message =>
    obtain ⟨isIdle, isName, rfl⟩ := step
    rw [fixed isDown] at member
    simp only [Worker.queued, List.filterMap_append, List.mem_append, not_or]
    refine ⟨turned isDown away name member, ?_⟩
    simp only [List.filterMap_cons, isName, List.filterMap_nil, List.mem_singleton]
    rintro rfl
    exact told.begun name member isIdle
  | returned | callStop =>
    obtain ⟨_, rfl⟩ := step
    rw [fixed isDown] at member
    exact turned isDown away name member
  | wake =>
    obtain ⟨_, _, rfl⟩ := step
    rw [fixed isDown] at member
    exact turned isDown away name member
  | dequeue taken =>
    obtain ⟨_, isTaken⟩ := step
    obtain rfl : target = source.dequeued.2 := congrArg Prod.snd isTaken
    rw [Worker.dequeued] at away ⊢
    cases queue : source.queue with
    | nil =>
      exact List.not_mem_nil
    | cons message rest =>
      rw [queue] at away
      rcases away with atCheck | atLeft
      · cases atCheck
      · cases atLeft
  | process record =>
    obtain ⟨_, _, _, _, _, _, rfl⟩ := step
    rcases away with atCheck | atLeft
    · cases atCheck
    · cases atLeft
  | load running =>
    obtain ⟨atCheck, _, rfl⟩ := step
    rw [fixed isDown] at member
    exact turned isDown (.inl atCheck) name member
  | store =>
    obtain ⟨isCalled, rfl⟩ := step
    have up : source.running = true := by
      cases isUp : source.running with
      | true => rfl
      | false => exact absurd isCalled (consistent.stopped isUp).2
    rcases away with atCheck | atLeft
    · intro queued
      have called : source.stop ≠ .notCalled := by rw [isCalled]; decide
      rw [returnedBeforeStop_stopped (told.called called) [.store]] at member
      exact meets rfl ⟨atCheck, name, member, queued⟩
    · have down := consistent.stays atLeft
      rw [up] at down
      cases down
  | join =>
    obtain ⟨_, _, rfl⟩ := step
    rw [fixed isDown] at member
    exact turned isDown away name member

/-- A message that is missed stays in the queue. -/
theorem Worker.missed_step {source target : Worker Price} {label : WorkerLabel Price}
    (step : (workerSystem Price).step source label target) {name : Nat}
    (missed : source.running = false ∧ (source.pc = .check ∨ source.pc = .left) ∧
      name ∈ source.queued) :
    target.running = false ∧ (target.pc = .check ∨ target.pc = .left) ∧ name ∈ target.queued := by
  obtain ⟨isDown, away, queued⟩ := missed
  cases label with
  | enqueue other message =>
    obtain ⟨_, _, rfl⟩ := step
    refine ⟨isDown, away, ?_⟩
    rw [Worker.queued, List.filterMap_append]
    exact List.mem_append_left _ queued
  | returned | callStop =>
    obtain ⟨_, rfl⟩ := step
    exact ⟨isDown, away, queued⟩
  | wake | join =>
    obtain ⟨_, _, rfl⟩ := step
    exact ⟨isDown, away, queued⟩
  | dequeue taken =>
    obtain ⟨atDequeue, _⟩ := step
    rw [atDequeue] at away
    rcases away with atCheck | atLeft
    · cases atCheck
    · cases atLeft
  | process record =>
    obtain ⟨_, _, atProcess, _⟩ := step
    rw [atProcess] at away
    rcases away with atCheck | atLeft
    · cases atCheck
    · cases atLeft
  | load running =>
    obtain ⟨_, isRunning, rfl⟩ := step
    refine ⟨isDown, .inr ?_, queued⟩
    rw [isRunning, isDown]
    rfl
  | store =>
    obtain ⟨_, rfl⟩ := step
    exact ⟨rfl, away, queued⟩

/-- A handler is served: its promise is set, and it wakes if it waits. -/
def Worker.Served (worker : Worker Price) (name : Nat) : Prop :=
  ∃ result, worker.promises name = some result ∧
    (worker.handlers name = .waiting →
      ∃ target, (workerSystem Price).step worker (.wake name result) target)

theorem Worker.served_of_set {worker : Worker Price} {name : Nat}
    (isSet : (worker.promises name).isSome) : worker.Served name := by
  obtain ⟨result, isResult⟩ := Option.isSome_iff_exists.mp isSet
  exact ⟨result, isResult, fun waits => ⟨_, waits, isResult, rfl⟩⟩

/-- When the thread has left, every handler whose enqueue returned before the stop was called is
served exactly when the flag was not cleared between a failed dequeue and the look at the flag
while a message of such a handler was in the queue. -/
theorem stop_drains_iff {labels : List (WorkerLabel Price)} {worker : Worker Price}
    (run : WorkerRun labels worker) (hasLeft : worker.pc = .left) :
    (∀ name ∈ returnedBeforeStop labels, worker.Served name) ↔
      ∀ front back source, labels = front ++ .store :: back → WorkerRun front source →
        ¬ source.Misses front := by
  constructor
  · rintro served front back source rfl prior ⟨atCheck, name, member, queued⟩
    obtain ⟨same, whole, steps⟩ := run.split
    obtain rfl := WorkerRun.unique prior whole
    cases steps with
    | cons store rest =>
      obtain ⟨isCalled, rfl⟩ := store
      have called : source.stop ≠ .notCalled := by rw [isCalled]; decide
      have stopped := returnedBeforeStop_stopped ((WorkerRun.told prior).called called)
        (.store :: back)
      obtain ⟨_, _, missed⟩ := rest.invariant (fun worker => worker.running = false ∧
        (worker.pc = .check ∨ worker.pc = .left) ∧ name ∈ worker.queued)
        (fun _ _ _ missed step => Worker.missed_step step missed) ⟨rfl, .inl atCheck, queued⟩
      obtain ⟨result, isSet, _⟩ := served name (by rwa [stopped])
      have unset := (WorkerRun.consistent run).unset name (worker.queued_subset missed)
      rw [isSet] at unset
      cases unset
  · intro meets
    have turned : worker.Turned labels := by
      refine run.invariant_of_admissible (fun labels => ∀ front back source,
        labels = front ++ .store :: back → WorkerRun front source → ¬ source.Misses front)
        ?_ ?_ ?_ meets
      · intro labels label admissible front back source split
        exact admissible front (back ++ [label]) source (by rw [split]; simp)
      · rintro _ rfl
        exact fun isDown => nomatch isDown
      · intro labels source label target prior admissible turned step
        refine turned.step (WorkerRun.consistent prior) (WorkerRun.told prior) step ?_
        rintro rfl
        exact admissible labels [] source rfl prior
    intro name member
    have consistent := WorkerRun.consistent run
    refine Worker.served_of_set ?_
    refine (consistent.accounted name ((WorkerRun.told run).begun name member)).resolve_left ?_
    intro pending
    refine turned (consistent.stays hasLeft) (.inr hasLeft) name member ?_
    rw [Worker.pending, hasLeft] at pending
    exact pending

/-! ### Two short runs -/

namespace Sample

/-- A handler's order. -/
def quote : Order ℚ := ⟨.bid, .limit, 100, 5, "ORD-0", "mm-1"⟩

/-- The message of the order. -/
def quoteMessage : QueueMessage ℚ := ⟨.submit quote, some 0, 10, 11⟩

/-- The order's message is processed before the stop. -/
def drainedLabels : List (WorkerLabel ℚ) :=
  [.enqueue 0 quoteMessage, .returned 0, .dequeue (some quoteMessage),
    .process (submitRecord .empty 1 quote), .dequeue none, .callStop, .store, .load false]

/-- The stop comes between the failed dequeue and the look at the flag. -/
def missedLabels : List (WorkerLabel ℚ) :=
  [.dequeue none, .enqueue 0 quoteMessage, .returned 0, .callStop, .store, .load false, .join]

/-- The state that the missed run reaches. -/
def missedWorker : Worker ℚ where
  queue := [quoteMessage]
  book := .empty
  running := false
  pc := .left
  stop := .joined
  handlers := Function.update (Function.update (fun _ => .idle) 0 .enqueueing) 0 .waiting
  promises _ := none

theorem missedRun : WorkerRun missedLabels missedWorker := by
  have start : WorkerRun [] (Worker.initial : Worker ℚ) := Run.start rfl
  have looked : WorkerRun ([] ++ [WorkerLabel.dequeue none]) _ := start.next ⟨rfl, rfl⟩
  have enqueued : WorkerRun (_ ++ [WorkerLabel.enqueue 0 quoteMessage]) _ :=
    looked.next ⟨rfl, rfl, rfl⟩
  have returned : WorkerRun (_ ++ [WorkerLabel.returned 0]) _ := enqueued.next ⟨rfl, rfl⟩
  have called : WorkerRun (_ ++ [WorkerLabel.callStop]) _ := returned.next ⟨rfl, rfl⟩
  have stored : WorkerRun (_ ++ [WorkerLabel.store]) _ := called.next ⟨rfl, rfl⟩
  have left : WorkerRun (_ ++ [WorkerLabel.load false]) _ := stored.next ⟨rfl, rfl, rfl⟩
  have joined : WorkerRun (_ ++ [WorkerLabel.join]) _ := left.next ⟨rfl, rfl, rfl⟩
  exact joined

theorem drainedRun : ∃ worker, WorkerRun drainedLabels worker ∧ worker.pc = .left := by
  have start : WorkerRun [] (Worker.initial : Worker ℚ) := Run.start rfl
  have enqueued : WorkerRun ([] ++ [WorkerLabel.enqueue 0 quoteMessage]) _ :=
    start.next ⟨rfl, rfl, rfl⟩
  have returned : WorkerRun (_ ++ [WorkerLabel.returned 0]) _ := enqueued.next ⟨rfl, rfl⟩
  have taken : WorkerRun (_ ++ [WorkerLabel.dequeue (some quoteMessage)]) _ :=
    returned.next ⟨rfl, rfl⟩
  have processed : WorkerRun (_ ++ [WorkerLabel.process (submitRecord .empty 1 quote)]) _ :=
    taken.next ⟨quoteMessage, 0, rfl, rfl, rfl, submitRecord_step _ _ _, rfl⟩
  have looked : WorkerRun (_ ++ [WorkerLabel.dequeue none]) _ := processed.next ⟨rfl, rfl⟩
  have called : WorkerRun (_ ++ [WorkerLabel.callStop]) _ := looked.next ⟨rfl, rfl⟩
  have stored : WorkerRun (_ ++ [WorkerLabel.store]) _ := called.next ⟨rfl, rfl⟩
  have left : WorkerRun (_ ++ [WorkerLabel.load false]) _ := stored.next ⟨rfl, rfl, rfl⟩
  exact ⟨_, left, rfl⟩

end Sample

theorem stop_drains_iff_sample : ∃ worker : Worker ℚ, WorkerRun Sample.drainedLabels worker ∧
    ((∀ name ∈ returnedBeforeStop Sample.drainedLabels, worker.Served name) ↔
      ∀ front back source, Sample.drainedLabels = front ++ .store :: back →
        WorkerRun front source → ¬ source.Misses front) := by
  obtain ⟨worker, run, hasLeft⟩ := Sample.drainedRun
  exact ⟨worker, run, stop_drains_iff run hasLeft⟩

/-- The thread finds the queue empty, a handler's enqueue returns, `stop` clears the flag, and the
thread leaves: the handler waits for ever. -/
theorem stop_misses_message :
    WorkerRun Sample.missedLabels Sample.missedWorker ∧ Sample.missedWorker.pc = .left ∧
      0 ∈ returnedBeforeStop Sample.missedLabels ∧
      Sample.missedWorker.handlers 0 = .waiting ∧ ¬ Sample.missedWorker.Served 0 := by
  refine ⟨Sample.missedRun, rfl, by decide, rfl, ?_⟩
  rintro ⟨result, isSet, _⟩
  cases isSet

end MarketSandbox
