/-
This file joins the request handlers, the queue of the messages and the engine's
thread. A handler gives its order an id, enqueues a message with a promise and
waits for it; the thread dequeues messages one memory access at a time, performs
each on the book and sets its promise; `stop` clears the flag that the thread
looks at when it finds the queue empty. In every run with few enough enqueues
the service is linearizable: the operations that the thread has performed are a
run of the book, one for each request at most, and every response is computed
from the result of its own request, which took effect between the request and
the response.
-/

import MarketSandbox.Exchange.Engine
import MarketSandbox.Exchange.Service
import MarketSandbox.Library.Linearization
import MarketSandbox.Queue.Order

namespace MarketSandbox

open Transition MPSCQueue

variable {Price : Type}

/-! ### Requests and responses -/

deriving instance DecidableEq for QueueMessage

/-- A default-constructed message, whose payload holds nothing; a slot holds it until it is
filled. -/
instance : Inhabited (QueueMessage Price) := ⟨⟨.cancel "" "", none, 0, 0⟩⟩

/-- A request as it comes in. -/
inductive Incoming (Price : Type)
  | submitOrder (request : SubmitOrderRequest Price)
  | cancelOrder (request : CancelOrderRequest)

/-- The request with the id that `OrderIdGenerator::next` gives it, and the counter after that. -/
def Incoming.identify (counter : Nat) : Incoming Price → Request Price × Nat
  | .submitOrder request => (.submitOrder request (orderIdAt counter), counter + 1)
  | .cancelOrder request => (.cancelOrder request, counter)

/-- `OrderStatusDTO::orderStatusToProto`. -/
def OrderStatus.orderStatusToProto : OrderStatus → Int
  | .unspecified => 0
  | .filled => 1
  | .partialFill => 2
  | .queued => 3
  | .rejected => 4

/-- `SubmitOrderResponse`. -/
structure SubmitOrderResponse (Price : Type) where
  orderStatus : Int
  orderId : String
  quantity : Int
  avgPrice : Price
  timestamp : Nat
  rejectionReason : String
  deriving DecidableEq

/-- What a handler answers: a `SubmitOrderResponse`, or a `CancelOrderResponse` with its flag. -/
inductive Response (Price : Type)
  | submitOrder (response : SubmitOrderResponse Price)
  | cancelOrder (successful : Bool)
  deriving DecidableEq

/-- The response that a handler makes of a result. -/
def Operation.respond (result : EngineResult Price) : Operation Price → Response Price
  | .submit _ => .submitOrder {
      orderStatus := result.status.orderStatusToProto
      orderId := result.orderId
      quantity := result.filledQuantity
      avgPrice := result.avgPrice
      timestamp := result.timestamp
      rejectionReason := result.rejectionReason }
  | .cancel _ _ => .cancelOrder result.cancelSuccessful

/-- The response to the operation of a record. -/
def Record.response [LT Price] (record : Record Price) : Response Price :=
  record.operation.respond record.result

/-! ### The handlers, the queue and the thread -/

/-- Where the handler of a call stands: before its request, before its enqueue, in it, waiting for
its promise, or after its response. -/
inductive Call (Price : Type)
  | idle
  | received (message : QueueMessage Price)
  | enqueueing (message : QueueMessage Price)
  | waiting (message : QueueMessage Price)
  | answered (message : QueueMessage Price) (response : Response Price)

/-- Where `MatchingEngine::run` stands: in a dequeue, with a message to process, before the load of
`_running`, or after the loop. -/
inductive Turn (Price : Type)
  | dequeue
  | process (message : QueueMessage Price)
  | check
  | left

/-- The service: the queue of the messages, the calls by the names of their promises with the
counter of the order ids, the promises that are set, and the engine. -/
structure Pipeline (Price : Type) [LT Price] where
  queue : MPSCQueue.State Nat (QueueMessage Price)
  calls : Nat → Call Price
  counter : Nat
  promises : Nat → Option (EngineResult Price)
  book : OrderBook Price
  turn : Turn Price
  running : Bool

/-- The steps. -/
inductive PipelineLabel (Price : Type) [LT Price]
  | receive (name : Nat) (request : Request Price) (tRpcIn tEnqueue : Int)
  | queue (label : MPSCQueue.Label Nat (QueueMessage Price))
  | process (message : QueueMessage Price) (record : Record Price)
  | answer (name : Nat) (response : Response Price)
  | load (running : Bool)
  | stop

/-- The message that a handler enqueues. -/
def Request.message (request : Request Price) (name : Nat) (tRpcIn tEnqueue : Int) :
    QueueMessage Price :=
  ⟨request.payload, some name, tRpcIn, tEnqueue⟩

/-- `if (msg.resultPromise) msg.resultPromise->set_value(result)`. -/
def fulfil (promises : Nat → Option (EngineResult Price)) (result : EngineResult Price) :
    Option Nat → Nat → Option (EngineResult Price)
  | none => promises
  | some name => Function.update promises name (some result)

section Model

variable [PriceOperations Price]

/-- A started service. -/
def Pipeline.initial : Pipeline Price where
  queue := .start
  calls _ := .idle
  counter := 0
  promises _ := none
  book := .empty
  turn := .dequeue
  running := true

/-- A step of the queue: its calls and returns are those of the handlers and of the thread. -/
def Pipeline.queueStep (source target : Pipeline Price)
    (queue : MPSCQueue.State Nat (QueueMessage Price)) :
    MPSCQueue.Label Nat (QueueMessage Price) → Prop
  | .enqueueCall name message => source.calls name = .received message ∧
      target = { source with
        queue := queue
        calls := Function.update source.calls name (.enqueueing message) }
  | .enqueueReturn name message => source.calls name = .enqueueing message ∧
      target = { source with
        queue := queue
        calls := Function.update source.calls name (.waiting message) }
  | .dequeueCall => source.turn = .dequeue ∧ target = { source with queue := queue }
  | .dequeueReturn (some message) => source.turn = .dequeue ∧
      target = { source with queue := queue, turn := .process message }
  | .dequeueReturn none => source.turn = .dequeue ∧
      target = { source with queue := queue, turn := .check }
  | .producer _ | .consumer => target = { source with queue := queue }

/-- The service as a transition system. -/
def pipelineSystem (Price : Type) [PriceOperations Price] :
    System (Pipeline Price) (PipelineLabel Price) where
  initial pipeline := pipeline = .initial
  step source label target :=
    match label with
    | .receive name request tRpcIn tEnqueue => source.calls name = .idle ∧
        ∃ incoming : Incoming Price, ∃ counter,
          incoming.identify source.counter = (request, counter) ∧
          target = { source with
            calls := Function.update source.calls name
              (.received (request.message name tRpcIn tEnqueue))
            counter := counter }
    | .queue label => ∃ queue, MPSCQueue.perform source.queue label = some queue ∧
        source.queueStep target queue label
    | .process message record => source.turn = .process message ∧
        record.operation = message.payload ∧
        (bookSystem Price).step source.book record record.after ∧
        target = { source with
          book := record.after
          promises := fulfil source.promises record.result message.resultPromise
          turn := .dequeue }
    | .answer name response => ∃ message result, source.calls name = .waiting message ∧
        source.promises name = some result ∧ response = message.payload.respond result ∧
        target =
          { source with calls := Function.update source.calls name (.answered message response) }
    | .load running => source.turn = .check ∧ running = source.running ∧
        target = { source with turn := if running then .dequeue else .left }
    | .stop => target = { source with running := false }

/-- A run of a started service. -/
abbrev PipelineRun (labels : List (PipelineLabel Price)) (pipeline : Pipeline Price) : Prop :=
  Run (pipelineSystem Price) labels pipeline

end Model

/-! ### What the labels of a run say -/

section Labels

variable [LT Price]

/-- The step of the queue. -/
def PipelineLabel.queue? : PipelineLabel Price → Option (MPSCQueue.Label Nat (QueueMessage Price))
  | .queue label => some label
  | _ => none

/-- The message that the thread processes. -/
def PipelineLabel.message? : PipelineLabel Price → Option (QueueMessage Price)
  | .process message _ => some message
  | _ => none

/-- The call whose operation the thread performs, and the record of it. -/
def PipelineLabel.served? : PipelineLabel Price → Option (Nat × Record Price)
  | .process message record => message.resultPromise.map fun name => (name, record)
  | _ => none

/-- The steps of the queue. -/
def queueSteps (labels : List (PipelineLabel Price)) :
    List (MPSCQueue.Label Nat (QueueMessage Price)) :=
  labels.filterMap PipelineLabel.queue?

/-- The messages that the thread has processed, in order. -/
def processed (labels : List (PipelineLabel Price)) : List (QueueMessage Price) :=
  labels.filterMap PipelineLabel.message?

/-- The calls whose operations the thread has performed, in order, with their records. -/
def served (labels : List (PipelineLabel Price)) : List (Nat × Record Price) :=
  labels.filterMap PipelineLabel.served?

theorem queueSteps_concat (labels : List (PipelineLabel Price)) (label : PipelineLabel Price) :
    queueSteps (labels ++ [label]) = queueSteps labels ++ label.queue?.toList := by
  rw [queueSteps, List.filterMap_append, ← queueSteps]
  cases step : label.queue? <;> simp [step]

theorem processed_concat (labels : List (PipelineLabel Price)) (label : PipelineLabel Price) :
    processed (labels ++ [label]) = processed labels ++ label.message?.toList := by
  rw [processed, List.filterMap_append, ← processed]
  cases message : label.message? <;> simp [message]

end Labels

/-! ### Every message is its own call's -/

section Calls

/-- The message of a call. -/
def Call.message? : Call Price → Option (QueueMessage Price)
  | .idle => none
  | .received message | .enqueueing message | .waiting message | .answered message _ =>
    some message

/-- The message of a call whose enqueue has begun. -/
def Call.enqueued? : Call Price → Option (QueueMessage Price)
  | .idle | .received _ => none
  | .enqueueing message | .waiting message | .answered message _ => some message

theorem Call.message?_of_enqueued? {call : Call Price} {message : QueueMessage Price}
    (enqueued : call.enqueued? = some message) : call.message? = some message := by
  cases call with
  | idle | received => cases enqueued
  | enqueueing | waiting | answered => exact enqueued

/-- The message that the thread has dequeued and not processed. -/
def Turn.held? : Turn Price → Option (QueueMessage Price)
  | .process message => some message
  | .dequeue | .check | .left => none

/-- A call that goes on with its message. -/
theorem message?_update {calls : Nat → Call Price} {name : Nat} {call : Call Price}
    (kept : call.message? = (calls name).message?) (other : Nat) :
    (Function.update calls name call other).message? = (calls other).message? := by
  by_cases same : other = name
  · subst same
    rw [Function.update_self, kept]
  · rw [Function.update_of_ne same]

theorem enqueued?_update {calls : Nat → Call Price} {name : Nat} {call : Call Price}
    (kept : ∀ message, (calls name).enqueued? = some message → call.enqueued? = some message)
    {other : Nat} {message : QueueMessage Price}
    (enqueued : (calls other).enqueued? = some message) :
    (Function.update calls name call other).enqueued? = some message := by
  by_cases same : other = name
  · subst same
    rw [Function.update_self]
    exact kept message enqueued
  · rwa [Function.update_of_ne same]

end Calls

section Identified

variable [PriceOperations Price]

/-- The message of a call that has been received. -/
def Pipeline.message? (pipeline : Pipeline Price) (name : Nat) : Option (QueueMessage Price) :=
  (pipeline.calls name).message?

/-- Every message has the promise of its own call; the orders have ids below the counter, and no
two of them the same. -/
structure Pipeline.Identified (pipeline : Pipeline Price) : Prop where
  own : ∀ name message, pipeline.message? name = some message → message.resultPromise = some name
  below : ∀ name message order, pipeline.message? name = some message →
    message.payload = .submit order → ∃ count < pipeline.counter, order.orderId = orderIdAt count
  distinct : ∀ first second message other order otherOrder,
    pipeline.message? first = some message → pipeline.message? second = some other →
    message.payload = .submit order → other.payload = .submit otherOrder →
    order.orderId = otherOrder.orderId → first = second

/-- Only a request brings a new message. -/
theorem step_message? {source target : Pipeline Price} {label : PipelineLabel Price}
    (step : (pipelineSystem Price).step source label target)
    (notReceive : ∀ name request tRpcIn tEnqueue, label ≠ .receive name request tRpcIn tEnqueue) :
    target.message? = source.message? ∧ target.counter = source.counter := by
  cases label with
  | receive name request tRpcIn tEnqueue => exact absurd rfl (notReceive _ _ _ _)
  | queue label =>
    obtain ⟨queue, _, step⟩ := step
    cases label with
    | enqueueCall name message | enqueueReturn name message =>
      obtain ⟨stands, rfl⟩ := step
      refine ⟨funext fun other => message?_update ?_ other, rfl⟩
      rw [stands]
      rfl
    | dequeueCall =>
      obtain ⟨_, rfl⟩ := step
      exact ⟨rfl, rfl⟩
    | dequeueReturn result =>
      cases result with
      | none | some =>
        obtain ⟨_, rfl⟩ := step
        exact ⟨rfl, rfl⟩
    | producer | consumer =>
      obtain rfl := step
      exact ⟨rfl, rfl⟩
  | process message record =>
    obtain ⟨_, _, _, rfl⟩ := step
    exact ⟨rfl, rfl⟩
  | answer name response =>
    obtain ⟨message, result, stands, _, _, rfl⟩ := step
    refine ⟨funext fun other => message?_update ?_ other, rfl⟩
    rw [stands]
    rfl
  | load running =>
    obtain ⟨_, _, rfl⟩ := step
    exact ⟨rfl, rfl⟩
  | stop =>
    obtain rfl := step
    exact ⟨rfl, rfl⟩

/-- What a request brings. -/
theorem step_receive {source target : Pipeline Price} {name : Nat} {request : Request Price}
    {tRpcIn tEnqueue : Int}
    (step : (pipelineSystem Price).step source (.receive name request tRpcIn tEnqueue) target) :
    target.message? =
      Function.update source.message? name (some (request.message name tRpcIn tEnqueue)) ∧
    source.counter ≤ target.counter ∧ ∀ order, request.payload = .submit order →
      order.orderId = orderIdAt source.counter ∧ target.counter = source.counter + 1 := by
  obtain ⟨_, incoming, counter, identified, rfl⟩ := step
  refine ⟨?_, ?_, ?_⟩
  · funext other
    by_cases same : other = name
    · subst same
      simp only [Pipeline.message?, Function.update_self]
      rfl
    · simp only [Pipeline.message?, Function.update_of_ne same]
  · cases incoming with
    | submitOrder | cancelOrder =>
      obtain ⟨_, rfl⟩ := Prod.mk.inj identified
      simp
  · intro order isSubmit
    cases incoming with
    | submitOrder received =>
      obtain ⟨rfl, rfl⟩ := Prod.mk.inj identified
      obtain rfl := Operation.submit.inj isSubmit
      exact ⟨rfl, rfl⟩
    | cancelOrder received =>
      obtain ⟨rfl, _⟩ := Prod.mk.inj identified
      cases isSubmit

/-- Every reached service is identified. -/
theorem PipelineRun.identified {labels : List (PipelineLabel Price)} {pipeline : Pipeline Price}
    (run : PipelineRun labels pipeline) : pipeline.Identified := by
  refine run.invariant (fun _ pipeline => pipeline.Identified) ?_ ?_
  · rintro _ rfl
    exact ⟨fun _ _ received => (by cases received), fun _ _ _ received => (by cases received),
      fun _ _ _ _ _ _ received => (by cases received)⟩
  · intro labels source label target _ identified step
    by_cases isReceive : ∃ name request tRpcIn tEnqueue,
        label = .receive name request tRpcIn tEnqueue
    · obtain ⟨name, request, tRpcIn, tEnqueue, rfl⟩ := isReceive
      obtain ⟨messages, grows, isNew⟩ := step_receive step
      -- a call's message is the new one, or it was there before
      have cases : ∀ other message, target.message? other = some message →
          (other = name ∧ request.message name tRpcIn tEnqueue = message) ∨
          (other ≠ name ∧ source.message? other = some message) := by
        intro other message received
        rw [messages] at received
        by_cases same : other = name
        · subst same
          rw [Function.update_self] at received
          exact .inl ⟨rfl, Option.some.inj received⟩
        · rw [Function.update_of_ne same] at received
          exact .inr ⟨same, received⟩
      have older : ∀ other message order, source.message? other = some message →
          message.payload = .submit order → order.orderId ≠ orderIdAt source.counter := by
        intro other message order received isSubmit equal
        obtain ⟨count, bound, isId⟩ := identified.below other message order received isSubmit
        exact bound.ne (orderIdAt_injective (isId.symm.trans equal))
      constructor
      · intro other message received
        rcases cases other message received with ⟨rfl, rfl⟩ | ⟨_, old⟩
        · rfl
        · exact identified.own other message old
      · intro other message order received isSubmit
        rcases cases other message received with ⟨rfl, rfl⟩ | ⟨_, old⟩
        · obtain ⟨isId, next⟩ := isNew order isSubmit
          exact ⟨source.counter, by omega, isId⟩
        · obtain ⟨count, bound, isId⟩ := identified.below other message order old isSubmit
          exact ⟨count, by omega, isId⟩
      · intro first second message other order otherOrder received otherReceived isSubmit
          otherIsSubmit same
        rcases cases first message received with ⟨rfl, rfl⟩ | ⟨_, old⟩
        · rcases cases second other otherReceived with ⟨rfl, _⟩ | ⟨_, otherOld⟩
          · rfl
          · refine absurd (same.symm.trans (isNew order isSubmit).1) ?_
            exact older second other otherOrder otherOld otherIsSubmit
        · rcases cases second other otherReceived with ⟨rfl, rfl⟩ | ⟨_, otherOld⟩
          · refine absurd (same.trans (isNew otherOrder otherIsSubmit).1) ?_
            exact older first message order old isSubmit
          · exact identified.distinct first second message other order otherOrder old otherOld
              isSubmit otherIsSubmit same
    · obtain ⟨messages, counter⟩ := step_message? step fun name request tRpcIn tEnqueue isLabel =>
        isReceive ⟨name, request, tRpcIn, tEnqueue, isLabel⟩
      constructor
      · rw [messages]
        exact identified.own
      · rw [messages, counter]
        exact identified.below
      · rw [messages]
        exact identified.distinct

/-- A request leaves its message with its call. -/
theorem PipelineRun.received {labels : List (PipelineLabel Price)} {pipeline : Pipeline Price}
    (run : PipelineRun labels pipeline) {name : Nat} {request : Request Price}
    {tRpcIn tEnqueue : Int} (member : .receive name request tRpcIn tEnqueue ∈ labels) :
    pipeline.message? name = some (request.message name tRpcIn tEnqueue) := by
  induction run with
  | start => exact absurd member List.not_mem_nil
  | @next labels source target label before step inductionHypothesis =>
    rcases List.mem_append.mp member with old | new
    · have held := inductionHypothesis old
      by_cases isReceive : ∃ name request tRpcIn tEnqueue,
          label = .receive name request tRpcIn tEnqueue
      · obtain ⟨other, otherRequest, otherIn, otherEnqueue, rfl⟩ := isReceive
        have isIdle : source.calls other = .idle := step.1
        rw [(step_receive step).1, Function.update_of_ne, held]
        rintro rfl
        rw [Pipeline.message?, isIdle] at held
        cases held
      · rw [(step_message? step fun name request tRpcIn tEnqueue isLabel =>
          isReceive ⟨name, request, tRpcIn, tEnqueue, isLabel⟩).1]
        exact held
    · obtain rfl := List.mem_singleton.mp new
      rw [(step_receive step).1, Function.update_self]

end Identified

/-! ### The thread takes each message from the queue -/

section Traced

variable [PriceOperations Price]

/-- The messages enqueued are those of calls whose enqueue has begun, each once; those dequeued
are processed or with the thread; and a promise that is set is that of a processed message. -/
structure Pipeline.Traced (labels : List (PipelineLabel Price)) (pipeline : Pipeline Price) :
    Prop where
  enqueued : ∀ message ∈ called (queueSteps labels),
    ∃ name, (pipeline.calls name).enqueued? = some message
  distinct : (called (queueSteps labels)).Nodup
  taken : returned (queueSteps labels) = processed labels ++ pipeline.turn.held?.toList
  promised : ∀ name, (pipeline.promises name).isSome →
    ∃ message ∈ processed labels, message.resultPromise = some name

/-- A call whose enqueue has begun keeps its message. -/
theorem step_enqueued? {source target : Pipeline Price} {label : PipelineLabel Price}
    (step : (pipelineSystem Price).step source label target) {name : Nat}
    {message : QueueMessage Price} (enqueued : (source.calls name).enqueued? = some message) :
    (target.calls name).enqueued? = some message := by
  cases label with
  | receive other request tRpcIn tEnqueue =>
    obtain ⟨isIdle, _, _, _, rfl⟩ := step
    refine enqueued?_update (fun _ begun => ?_) enqueued
    rw [isIdle] at begun
    cases begun
  | queue label =>
    obtain ⟨queue, _, step⟩ := step
    cases label with
    | enqueueCall other data =>
      obtain ⟨stands, rfl⟩ := step
      refine enqueued?_update (fun _ begun => ?_) enqueued
      rw [stands] at begun
      cases begun
    | enqueueReturn other data =>
      obtain ⟨stands, rfl⟩ := step
      refine enqueued?_update (fun _ begun => ?_) enqueued
      rw [stands] at begun
      exact begun
    | dequeueCall =>
      obtain ⟨_, rfl⟩ := step
      exact enqueued
    | dequeueReturn result =>
      cases result with
      | none | some =>
        obtain ⟨_, rfl⟩ := step
        exact enqueued
    | producer | consumer =>
      obtain rfl := step
      exact enqueued
  | process processing record =>
    obtain ⟨_, _, _, rfl⟩ := step
    exact enqueued
  | answer other response =>
    obtain ⟨_, _, stands, _, _, rfl⟩ := step
    refine enqueued?_update (fun _ begun => ?_) enqueued
    rw [stands] at begun
    exact begun
  | load running =>
    obtain ⟨_, _, rfl⟩ := step
    exact enqueued
  | stop =>
    obtain rfl := step
    exact enqueued

omit [PriceOperations Price] in
theorem isSome_fulfil {promises : Nat → Option (EngineResult Price)} {result : EngineResult Price}
    {promise : Option Nat} {name : Nat} (isSet : (fulfil promises result promise name).isSome) :
    promise = some name ∨ (promises name).isSome := by
  cases promise with
  | none => exact .inr isSet
  | some other =>
    by_cases same : name = other
    · exact .inl (congrArg some same.symm)
    · rw [fulfil, Function.update_of_ne same] at isSet
      exact .inr isSet

/-- A step that neither calls nor returns from the queue and processes nothing. -/
theorem Pipeline.Traced.unchanged {labels : List (PipelineLabel Price)}
    {label : PipelineLabel Price} {source target : Pipeline Price} (traced : source.Traced labels)
    (step : (pipelineSystem Price).step source label target)
    (notCalled : called label.queue?.toList = []) (notReturned : returned label.queue?.toList = [])
    (notProcessed : label.message? = none) (held : target.turn.held? = source.turn.held?)
    (promises : target.promises = source.promises) : target.Traced (labels ++ [label]) := by
  constructor
  · intro message member
    rw [queueSteps_concat, called_append, notCalled, List.append_nil] at member
    obtain ⟨name, enqueued⟩ := traced.enqueued message member
    exact ⟨name, step_enqueued? step enqueued⟩
  · rw [queueSteps_concat, called_append, notCalled, List.append_nil]
    exact traced.distinct
  · rw [queueSteps_concat, returned_append, notReturned, List.append_nil, processed_concat,
      notProcessed, held, Option.toList_none, List.append_nil]
    exact traced.taken
  · intro name isSet
    rw [promises] at isSet
    rw [processed_concat, notProcessed, Option.toList_none, List.append_nil]
    exact traced.promised name isSet

theorem Pipeline.Traced.enqueue {labels : List (PipelineLabel Price)} {name : Nat}
    {message : QueueMessage Price} {source target : Pipeline Price} (traced : source.Traced labels)
    (identified : source.Identified)
    (step : (pipelineSystem Price).step source (.queue (.enqueueCall name message)) target) :
    target.Traced (labels ++ [PipelineLabel.queue (.enqueueCall name message)]) := by
  have others {other : Nat} {data : QueueMessage Price}
      (enqueued : (source.calls other).enqueued? = some data) :
      (target.calls other).enqueued? = some data := step_enqueued? step enqueued
  obtain ⟨queue, _, stands, rfl⟩ := step
  have isNew : message ∉ called (queueSteps labels) := by
    intro member
    obtain ⟨other, enqueued⟩ := traced.enqueued message member
    have own := identified.own name message (by rw [Pipeline.message?, stands]; rfl)
    have otherOwn := identified.own other message (Call.message?_of_enqueued? enqueued)
    obtain rfl := Option.some.inj (own.symm.trans otherOwn)
    rw [stands] at enqueued
    cases enqueued
  have calls : called (queueSteps (labels ++ [PipelineLabel.queue (.enqueueCall name message)])) =
      called (queueSteps labels) ++ [message] := by
    rw [queueSteps_concat, called_append]
    rfl
  have same : processed (labels ++ [PipelineLabel.queue (.enqueueCall name message)]) =
      processed labels := by
    rw [processed_concat]
    exact List.append_nil _
  constructor
  · intro data member
    rw [calls, List.mem_append, List.mem_singleton] at member
    rcases member with old | rfl
    · obtain ⟨other, enqueued⟩ := traced.enqueued data old
      exact ⟨other, others enqueued⟩
    · exact ⟨name, by simp only [Function.update_self]; rfl⟩
  · rw [calls]
    exact traced.distinct.append (List.nodup_singleton message)
      (List.disjoint_singleton.mpr isNew)
  · rw [same, ← traced.taken, queueSteps_concat, returned_append]
    exact List.append_nil _
  · rw [same]
    exact traced.promised

theorem Pipeline.Traced.dequeue {labels : List (PipelineLabel Price)}
    {message : QueueMessage Price} {source target : Pipeline Price} (traced : source.Traced labels)
    (step : (pipelineSystem Price).step source (.queue (.dequeueReturn (some message))) target) :
    target.Traced (labels ++ [PipelineLabel.queue (.dequeueReturn (some message))]) := by
  have calls :
      called (queueSteps (labels ++ [PipelineLabel.queue (.dequeueReturn (some message))])) =
      called (queueSteps labels) := by
    rw [queueSteps_concat, called_append]
    exact List.append_nil _
  have same : processed (labels ++ [PipelineLabel.queue (.dequeueReturn (some message))]) =
      processed labels := by
    rw [processed_concat]
    exact List.append_nil _
  obtain ⟨queue, _, dequeues, rfl⟩ := step
  refine ⟨?_, ?_, ?_, ?_⟩
  · rw [calls]
    exact traced.enqueued
  · rw [calls]
    exact traced.distinct
  · have taken := traced.taken
    rw [dequeues, Turn.held?, Option.toList_none, List.append_nil] at taken
    rw [same, queueSteps_concat, returned_append, taken]
    rfl
  · rw [same]
    exact traced.promised

theorem Pipeline.Traced.process {labels : List (PipelineLabel Price)}
    {message : QueueMessage Price} {record : Record Price} {source target : Pipeline Price}
    (traced : source.Traced labels)
    (step : (pipelineSystem Price).step source (.process message record) target) :
    target.Traced (labels ++ [PipelineLabel.process message record]) := by
  have steps :
      queueSteps (labels ++ [PipelineLabel.process message record]) = queueSteps labels := by
    rw [queueSteps_concat]
    exact List.append_nil _
  have grown : processed (labels ++ [PipelineLabel.process message record]) =
      processed labels ++ [message] :=
    processed_concat _ _
  obtain ⟨holds, _, _, rfl⟩ := step
  refine ⟨?_, ?_, ?_, ?_⟩
  · rw [steps]
    exact traced.enqueued
  · rw [steps]
    exact traced.distinct
  · have taken := traced.taken
    rw [holds] at taken
    rw [steps, grown, taken]
    exact (List.append_nil _).symm
  · intro name isSet
    rw [grown]
    rcases isSome_fulfil isSet with now | before
    · exact ⟨message, List.mem_append_right _ List.mem_cons_self, now⟩
    · obtain ⟨earlier, member, isName⟩ := traced.promised name before
      exact ⟨earlier, List.mem_append_left _ member, isName⟩

/-- Every run is traced. -/
theorem PipelineRun.traced {labels : List (PipelineLabel Price)} {pipeline : Pipeline Price}
    (run : PipelineRun labels pipeline) : pipeline.Traced labels := by
  refine run.invariant (fun labels pipeline => pipeline.Traced labels) ?_ ?_
  · rintro _ rfl
    exact ⟨fun _ member => absurd member List.not_mem_nil, List.nodup_nil, rfl,
      fun _ isSet => (by cases isSet)⟩
  · intro labels source label target before traced step
    cases label with
    | receive name request tRpcIn tEnqueue =>
      obtain ⟨_, _, _, _, rfl⟩ := id step
      exact traced.unchanged step rfl rfl rfl rfl rfl
    | queue label =>
      cases label with
      | enqueueCall name message => exact traced.enqueue (PipelineRun.identified before) step
      | enqueueReturn name message =>
        obtain ⟨_, _, _, rfl⟩ := id step
        exact traced.unchanged step rfl rfl rfl rfl rfl
      | dequeueCall =>
        obtain ⟨_, _, _, rfl⟩ := id step
        exact traced.unchanged step rfl rfl rfl rfl rfl
      | dequeueReturn result =>
        cases result with
        | none =>
          obtain ⟨_, _, dequeues, rfl⟩ := id step
          exact traced.unchanged step rfl rfl rfl (by rw [dequeues]; rfl) rfl
        | some message => exact traced.dequeue step
      | producer | consumer =>
        obtain ⟨_, _, rfl⟩ := id step
        exact traced.unchanged step rfl rfl rfl rfl rfl
    | process message record => exact traced.process step
    | answer name response =>
      obtain ⟨_, _, _, _, _, rfl⟩ := id step
      exact traced.unchanged step rfl rfl rfl rfl rfl
    | load running =>
      obtain ⟨checks, _, rfl⟩ := id step
      refine traced.unchanged step rfl rfl rfl ?_ rfl
      rw [checks]
      cases running with
      | false | true => rfl
    | stop =>
      obtain rfl := id step
      exact traced.unchanged step rfl rfl rfl rfl rfl

/-- The queue goes through a run of its own. -/
theorem PipelineRun.queueRun {labels : List (PipelineLabel Price)} {pipeline : Pipeline Price}
    (run : PipelineRun labels pipeline) :
    Run MPSCQueue.system (queueSteps labels) pipeline.queue := by
  refine run.view Pipeline.queue PipelineLabel.queue? ?_ ?_ ?_
  · rintro _ rfl
    rfl
  · intro source label target queueLabel step selected
    cases label with
    | queue label =>
      obtain rfl := Option.some.inj selected
      obtain ⟨queue, performed, step⟩ := step
      refine performed.trans (congrArg some ?_)
      cases label with
      | enqueueCall | enqueueReturn | dequeueCall =>
        obtain ⟨_, rfl⟩ := step
        rfl
      | dequeueReturn result =>
        cases result with
        | none | some =>
          obtain ⟨_, rfl⟩ := step
          rfl
      | producer | consumer =>
        obtain rfl := step
        rfl
    | receive | process | answer | load | stop => cases selected
  · intro source label target step selected
    cases label with
    | queue label => cases selected
    | receive =>
      obtain ⟨_, _, _, _, rfl⟩ := step
      rfl
    | process =>
      obtain ⟨_, _, _, rfl⟩ := step
      rfl
    | answer =>
      obtain ⟨_, _, _, _, _, rfl⟩ := step
      rfl
    | load =>
      obtain ⟨_, _, rfl⟩ := step
      rfl
    | stop =>
      obtain rfl := step
      rfl

/-- The thread holds the message of a call whose enqueue has begun and whose promise is not set;
the promise of any other call is not set before its enqueue has begun. -/
theorem PipelineRun.held {labels : List (PipelineLabel Price)} {pipeline : Pipeline Price}
    (run : PipelineRun labels pipeline) (few : FewEnqueues (queueSteps labels)) :
    (∀ name, (pipeline.calls name).enqueued? = none → pipeline.promises name = none) ∧
    ∀ message, pipeline.turn = .process message → ∃ name,
      message.resultPromise = some name ∧ (pipeline.calls name).enqueued? = some message ∧
      pipeline.promises name = none := by
  have traced := PipelineRun.traced run
  have identified := PipelineRun.identified run
  obtain ⟨subset, nodup⟩ := returned_called (PipelineRun.queueRun run) few traced.distinct
  rw [traced.taken] at subset nodup
  -- a promise is set only for a call whose message has been processed
  have promised : ∀ name, (pipeline.promises name).isSome → ∃ message ∈ processed labels,
      (pipeline.calls name).enqueued? = some message := by
    intro name isSet
    obtain ⟨message, member, isName⟩ := traced.promised name isSet
    obtain ⟨other, enqueued⟩ := traced.enqueued message (subset (List.mem_append_left _ member))
    have own := identified.own other message (Call.message?_of_enqueued? enqueued)
    obtain rfl := Option.some.inj (isName.symm.trans own)
    exact ⟨message, member, enqueued⟩
  constructor
  · intro name notBegun
    by_contra isSet
    obtain ⟨message, _, enqueued⟩ := promised name (Option.isSome_iff_ne_none.mpr isSet)
    rw [notBegun] at enqueued
    cases enqueued
  · intro message holds
    rw [holds] at subset nodup
    obtain ⟨name, enqueued⟩ := traced.enqueued message
      (subset (List.mem_append_right _ List.mem_cons_self))
    have own := identified.own name message (Call.message?_of_enqueued? enqueued)
    refine ⟨name, own, enqueued, ?_⟩
    by_contra isSet
    obtain ⟨other, member, otherEnqueued⟩ := promised name (Option.isSome_iff_ne_none.mpr isSet)
    obtain rfl := Option.some.inj (enqueued.symm.trans otherEnqueued)
    exact List.disjoint_of_nodup_append nodup member List.mem_cons_self

end Traced

/-! ### The service is linearizable -/

section Linearizable

variable [PriceOperations Price]

/-- Where a call stands for its client. -/
def Call.phase (promise : Option (EngineResult Price)) :
    Call Price → Linearization.Phase (Operation Price) (Response Price)
  | .idle => .idle
  | .received message | .enqueueing message | .waiting message =>
    match promise with
    | none => .called message.payload
    | some result => .performed message.payload (message.payload.respond result)
  | .answered message response => .answered message.payload response

/-- The book with the clients of the service. -/
def Pipeline.view (pipeline : Pipeline Price) :
    Linearization.State (OrderBook Price) Nat (Operation Price) (Response Price) where
  object := pipeline.book
  clients name := (pipeline.calls name).phase (pipeline.promises name)

/-- What a client or the book sees of a step. -/
def PipelineLabel.seen? : PipelineLabel Price →
    Option (Linearization.Label (Record Price) Nat (Operation Price) (Response Price))
  | .receive name request _ _ => some (.call name request.payload)
  | .process message record => message.resultPromise.map fun name => .perform name record
  | .answer name response => some (.answer name response)
  | .queue _ | .load _ | .stop => none

omit [PriceOperations Price] in
/-- A step that changes where one call stands is seen at that call only. -/
theorem phase_update (calls : Nat → Call Price) (promises : Nat → Option (EngineResult Price))
    (name : Nat) (call : Call Price) :
    (fun other => (Function.update calls name call other).phase (promises other)) =
      Function.update (fun other => (calls other).phase (promises other)) name
        (call.phase (promises name)) := by
  funext other
  by_cases same : other = name
  · subst same
    rw [Function.update_self, Function.update_self]
  · rw [Function.update_of_ne same, Function.update_of_ne same]

omit [PriceOperations Price] in
theorem answered_of_update {calls : Nat → Call Price} {name other : Nat} {call : Call Price}
    {message : QueueMessage Price} {response : Response Price}
    (notAnswered : ∀ message response, call ≠ .answered message response)
    (answered : Function.update calls name call other = .answered message response) :
    calls other = .answered message response := by
  by_cases same : other = name
  · subst same
    rw [Function.update_self] at answered
    exact absurd answered (notAnswered message response)
  · rwa [Function.update_of_ne same] at answered

/-- The promise of a call that has been answered is set. -/
theorem PipelineRun.settled {labels : List (PipelineLabel Price)} {pipeline : Pipeline Price}
    (run : PipelineRun labels pipeline) {name : Nat} {message : QueueMessage Price}
    {response : Response Price} (answered : pipeline.calls name = .answered message response) :
    (pipeline.promises name).isSome := by
  induction run generalizing name message response with
  | start initial =>
    obtain rfl := initial
    cases answered
  | @next labels source target label before step inductionHypothesis =>
    cases label with
    | receive other request tRpcIn tEnqueue =>
      obtain ⟨_, _, _, _, rfl⟩ := step
      exact inductionHypothesis (answered_of_update (fun _ _ equal => by cases equal) answered)
    | queue label =>
      obtain ⟨queue, _, step⟩ := step
      cases label with
      | enqueueCall | enqueueReturn =>
        obtain ⟨_, rfl⟩ := step
        exact inductionHypothesis (answered_of_update (fun _ _ equal => by cases equal) answered)
      | dequeueCall =>
        obtain ⟨_, rfl⟩ := step
        exact inductionHypothesis answered
      | dequeueReturn result =>
        cases result with
        | none | some =>
          obtain ⟨_, rfl⟩ := step
          exact inductionHypothesis answered
      | producer | consumer =>
        obtain rfl := step
        exact inductionHypothesis answered
    | process processing record =>
      obtain ⟨_, _, _, rfl⟩ := step
      have isSet := inductionHypothesis answered
      cases promise : processing.resultPromise with
      | none => exact isSet
      | some other =>
        by_cases same : name = other
        · subst same
          simp only [fulfil, Function.update_self, Option.isSome_some]
        · simpa only [fulfil, Function.update_of_ne same] using isSet
    | answer other otherResponse =>
      obtain ⟨waiting, result, stands, isSet, isResponse, rfl⟩ := step
      by_cases same : name = other
      · subst same
        exact isSet ▸ Option.isSome_some
      · simp only [Function.update_of_ne same] at answered
        exact inductionHypothesis answered
    | load running =>
      obtain ⟨_, _, rfl⟩ := step
      exact inductionHypothesis answered
    | stop =>
      obtain rfl := step
      exact inductionHypothesis answered

omit [PriceOperations Price] in
/-- A call whose promise is not set is one that its client has made and that has not taken
effect. -/
theorem Call.phase_of_enqueued {call : Call Price} {message : QueueMessage Price}
    (enqueued : call.enqueued? = some message)
    (unanswered : ∀ message response, call ≠ .answered message response) :
    call.phase none = .called message.payload := by
  cases call with
  | idle | received => cases enqueued
  | enqueueing | waiting =>
    obtain rfl := Option.some.inj enqueued
    rfl
  | answered => exact absurd rfl (unanswered _ _)

omit [PriceOperations Price] in
theorem Call.phase_of_set {call : Call Price} {message : QueueMessage Price}
    (enqueued : call.enqueued? = some message)
    (unanswered : ∀ message response, call ≠ .answered message response)
    (result : EngineResult Price) :
    call.phase (some result) = .performed message.payload (message.payload.respond result) := by
  cases call with
  | idle | received => cases enqueued
  | enqueueing | waiting =>
    obtain rfl := Option.some.inj enqueued
    rfl
  | answered => exact absurd rfl (unanswered _ _)

/-- The clients see the service as a book whose operations they call concurrently. -/
theorem PipelineRun.view {labels : List (PipelineLabel Price)} {pipeline : Pipeline Price}
    (run : PipelineRun labels pipeline) (few : FewEnqueues (queueSteps labels)) :
    Run (Linearization.system (bookSystem Price) Record.operation Record.response)
      (labels.filterMap PipelineLabel.seen?) pipeline.view := by
  refine run.refine (fun labels => FewEnqueues (queueSteps labels)) Pipeline.view
    PipelineLabel.seen? ?_ ?_ ?_ ?_ few
  · intro labels label few
    rw [queueSteps_concat] at few
    exact few.of_append
  · rintro _ rfl
    exact ⟨rfl, fun _ => rfl⟩
  · intro labels source label target seen before few step selected
    rw [queueSteps_concat] at few
    have held := PipelineRun.held before few.of_append
    cases label with
    | queue | load | stop => cases selected
    | receive name request tRpcIn tEnqueue =>
      obtain rfl := Option.some.inj selected
      obtain ⟨isIdle, _, _, _, rfl⟩ := step
      have unset := held.1 name (by rw [isIdle]; rfl)
      refine ⟨by simp only [Pipeline.view, isIdle]; rfl, ?_⟩
      simp only [Pipeline.view, Linearization.State.mk.injEq, true_and]
      rw [phase_update, unset]
      rfl
    | process message record =>
      obtain ⟨holds, isPayload, performed, rfl⟩ := step
      obtain ⟨name, isName, enqueued, unset⟩ := held.2 message holds
      have unanswered : ∀ message response, source.calls name ≠ .answered message response := by
        intro message response answered
        have isSet := PipelineRun.settled before answered
        rw [unset] at isSet
        cases isSet
      rw [PipelineLabel.seen?, isName] at selected
      obtain rfl := Option.some.inj selected
      refine ⟨?_, performed, ?_⟩
      · simp only [Pipeline.view, unset]
        rw [Call.phase_of_enqueued enqueued unanswered, isPayload]
      · simp only [Pipeline.view, isName, fulfil]
        funext other
        by_cases same : other = name
        · subst same
          rw [Function.update_self, Function.update_self,
            Call.phase_of_set enqueued unanswered record.result, Record.response, isPayload]
        · rw [Function.update_of_ne same, Function.update_of_ne same]
    | answer name response =>
      obtain rfl := Option.some.inj selected
      obtain ⟨message, result, stands, isSet, rfl, rfl⟩ := step
      refine ⟨message.payload, ?_, ?_⟩
      · simp only [Pipeline.view, stands, isSet]
        rfl
      · simp only [Pipeline.view, Linearization.State.mk.injEq, true_and]
        rw [phase_update]
        rfl
  · intro labels source label target before few step selected
    rw [queueSteps_concat] at few
    cases label with
    | receive | answer => cases selected
    | process message record =>
      obtain ⟨holds, _⟩ := step
      obtain ⟨name, isName, _⟩ := (PipelineRun.held before few.of_append).2 message holds
      rw [PipelineLabel.seen?, isName] at selected
      cases selected
    | load running =>
      obtain ⟨_, _, rfl⟩ := step
      rfl
    | stop =>
      obtain rfl := step
      rfl
    | queue label =>
      obtain ⟨queue, _, step⟩ := step
      cases label with
      | enqueueCall name message | enqueueReturn name message =>
        obtain ⟨stands, rfl⟩ := step
        simp only [Pipeline.view, Linearization.State.mk.injEq, true_and]
        rw [phase_update]
        refine Function.update_eq_self_iff.mpr ?_
        rw [stands]
        rfl
      | dequeueCall =>
        obtain ⟨_, rfl⟩ := step
        rfl
      | dequeueReturn result =>
        cases result with
        | none | some =>
          obtain ⟨_, rfl⟩ := step
          rfl
      | producer | consumer =>
        obtain rfl := step
        rfl

theorem effects_seen (labels : List (PipelineLabel Price)) :
    Linearization.effects (labels.filterMap PipelineLabel.seen?) = served labels := by
  rw [Linearization.effects, List.filterMap_filterMap, served]
  congr 1
  funext label
  cases label with
  | process message record =>
    rw [PipelineLabel.seen?, PipelineLabel.served?]
    cases message.resultPromise with
    | none | some => rfl
  | _ => rfl

/-- The operation of a call comes from its request. -/
theorem request_of_call {labels : List (PipelineLabel Price)} {name : Nat}
    {operation : Operation Price}
    (member : .call name operation ∈ labels.filterMap PipelineLabel.seen?) :
    ∃ request tRpcIn tEnqueue, .receive name request tRpcIn tEnqueue ∈ labels ∧
      request.payload = operation := by
  obtain ⟨label, inLabels, isSeen⟩ := List.mem_filterMap.mp member
  cases label with
  | receive other request tRpcIn tEnqueue =>
    obtain ⟨rfl, rfl⟩ := Linearization.Label.call.inj (Option.some.inj isSeen)
    exact ⟨request, tRpcIn, tEnqueue, inLabels, rfl⟩
  | process message record =>
    rw [PipelineLabel.seen?] at isSeen
    obtain ⟨_, _, equal⟩ := Option.map_eq_some_iff.mp isSeen
    cases equal
  | queue | answer | load | stop => cases isSeen

/-- The orders that the thread has submitted have different ids. -/
theorem PipelineRun.freshIds {labels : List (PipelineLabel Price)} {pipeline : Pipeline Price}
    (run : PipelineRun labels pipeline) (distinct : ((served labels).map Prod.fst).Nodup)
    (calls : ∀ name record, (name, record) ∈ served labels → ∃ request tRpcIn tEnqueue,
      .receive name request tRpcIn tEnqueue ∈ labels ∧ request.payload = record.operation) :
    FreshIds ((served labels).map Prod.snd) := by
  have identified := PipelineRun.identified run
  rw [FreshIds, submitted, List.filterMap_map, List.Nodup, List.pairwise_map,
    List.pairwise_filterMap]
  rw [List.Nodup, List.pairwise_map] at distinct
  refine distinct.imp_of_mem ?_
  rintro ⟨first, record⟩ ⟨second, other⟩ member otherMember different order isSubmit otherOrder
    otherIsSubmit same
  refine different ?_
  obtain ⟨request, _, _, received, isOperation⟩ := calls first record member
  obtain ⟨otherRequest, _, _, otherReceived, otherIsOperation⟩ :=
    calls second other otherMember
  have payload {operation : Operation Price} {order : Order Price}
      (isSubmit : operation.submitted? = some order) : operation = .submit order := by
    cases operation with
    | submit => exact congrArg Operation.submit (Option.some.inj isSubmit)
    | cancel => cases isSubmit
  exact identified.distinct first second _ _ order otherOrder (PipelineRun.received run received)
    (PipelineRun.received run otherReceived) (isOperation.trans (payload isSubmit))
    (otherIsOperation.trans (payload otherIsSubmit)) same

/-- The operations that the thread has performed are a run of the book on orders with fresh ids,
at most one for each request; every response is that of its own operation; and an operation whose
response is sent before another request is received is performed before that request's. -/
theorem service_linearizable {labels : List (PipelineLabel Price)} {pipeline : Pipeline Price}
    (run : PipelineRun labels pipeline) (few : FewEnqueues (queueSteps labels)) :
    BookRun ((served labels).map Prod.snd) pipeline.book ∧
    FreshIds ((served labels).map Prod.snd) ∧
    ((served labels).map Prod.fst).Nodup ∧
    (∀ name record, (name, record) ∈ served labels → ∃ request tRpcIn tEnqueue,
      .receive name request tRpcIn tEnqueue ∈ labels ∧ request.payload = record.operation) ∧
    (∀ name response, .answer name response ∈ labels →
      ∃ record, (name, record) ∈ served labels ∧ record.response = response) ∧
    ∀ first second response request tRpcIn tEnqueue record front back,
      [.answer first response, .receive second request tRpcIn tEnqueue].Sublist labels →
      served labels = front ++ (second, record) :: back →
      ∃ earlier, (first, earlier) ∈ front ∧ earlier.response = response := by
  have viewed := PipelineRun.view run few
  have same := effects_seen labels
  have distinct := Linearization.effects_nodup viewed
  rw [same] at distinct
  have calls : ∀ name record, (name, record) ∈ served labels → ∃ request tRpcIn tEnqueue,
      .receive name request tRpcIn tEnqueue ∈ labels ∧ request.payload = record.operation := by
    intro name record member
    rw [← same] at member
    exact request_of_call (Linearization.call_of_effect viewed member)
  refine ⟨?_, PipelineRun.freshIds run distinct calls, distinct, calls, ?_, ?_⟩
  · rw [← same]
    exact Linearization.effects_run viewed
  · intro name response member
    rw [← same]
    exact Linearization.effect_of_answer viewed (List.mem_filterMap.mpr ⟨_, member, rfl⟩)
  · intro first second response request tRpcIn tEnqueue record front back ordered whole
    rw [← same] at whole
    exact Linearization.effects_ordered viewed (ordered.filterMap PipelineLabel.seen?) whole

end Linearizable

/-! ### A short run -/

namespace Sample

/-- A maker's ask, with the id that it is given. -/
def offerRequest : Request ℚ := .submitOrder ⟨"mm-1", 2, 2, 101, 5⟩ (orderIdAt 0)

/-- The message of the ask. -/
def offerMessage : QueueMessage ℚ := offerRequest.message 0 10 11

/-- The record of the ask. -/
def offerRecord : Record ℚ := submitRecord .empty 1 ⟨.ask, .limit, 101, 5, orderIdAt 0, "mm-1"⟩

/-- The ask is received, enqueued, dequeued, performed and answered. -/
def servedLabels : List (PipelineLabel ℚ) :=
  [.receive 0 offerRequest 10 11, .queue (.enqueueCall 0 offerMessage), .queue (.producer 0),
    .queue (.producer 0), .queue (.producer 0), .queue (.producer 0), .queue (.producer 0),
    .queue (.producer 0), .queue (.enqueueReturn 0 offerMessage), .queue .dequeueCall,
    .queue .consumer, .queue .consumer, .queue .consumer, .queue .consumer,
    .queue (.dequeueReturn (some offerMessage)), .process offerMessage offerRecord,
    .answer 0 offerRecord.response]

/-- A step of the queue that can be taken. -/
theorem advance {labels : List (PipelineLabel ℚ)} {source target : Pipeline ℚ}
    (run : PipelineRun labels source) (label : MPSCQueue.Label Nat (QueueMessage ℚ))
    (moves : (perform source.queue label).isSome = true)
    (step : source.queueStep target ((perform source.queue label).get moves) label) :
    PipelineRun (labels ++ [PipelineLabel.queue label]) target :=
  run.next ⟨_, (Option.some_get moves).symm, step⟩

theorem servedRun : ∃ pipeline, PipelineRun servedLabels pipeline := by
  have start : PipelineRun [] (Pipeline.initial : Pipeline ℚ) := Run.start rfl
  have received : PipelineRun ([] ++ [PipelineLabel.receive 0 offerRequest 10 11]) _ :=
    start.next ⟨rfl, .submitOrder ⟨"mm-1", 2, 2, 101, 5⟩, _, rfl, rfl⟩
  have called := advance received (.enqueueCall 0 offerMessage) (by decide +kernel) ⟨rfl, rfl⟩
  have claimed := advance called (.producer 0) (by decide +kernel) rfl
  have loaded := advance claimed (.producer 0) (by decide +kernel) rfl
  have compared := advance loaded (.producer 0) (by decide +kernel) rfl
  have walked := advance compared (.producer 0) (by decide +kernel) rfl
  have read := advance walked (.producer 0) (by decide +kernel) rfl
  have published := advance read (.producer 0) (by decide +kernel) rfl
  have returned := advance published (.enqueueReturn 0 offerMessage) (by decide +kernel) ⟨rfl, rfl⟩
  have entered := advance returned .dequeueCall (by decide +kernel) ⟨rfl, rfl⟩
  have handled := advance entered .consumer (by decide +kernel) rfl
  have buffer := advance handled .consumer (by decide +kernel) rfl
  have tail := advance buffer .consumer (by decide +kernel) rfl
  have set := advance tail .consumer (by decide +kernel) rfl
  have taken := advance set (.dequeueReturn (some offerMessage)) (by decide +kernel) ⟨rfl, rfl⟩
  have processed : PipelineRun (_ ++ [PipelineLabel.process offerMessage offerRecord]) _ :=
    taken.next ⟨rfl, rfl, submitRecord_step _ _ _, rfl⟩
  have answered : PipelineRun (_ ++ [PipelineLabel.answer 0 offerRecord.response]) _ :=
    processed.next ⟨_, _, rfl, rfl, rfl, rfl⟩
  exact ⟨_, answered⟩
end Sample

theorem service_linearizable_sample : ∃ pipeline : Pipeline ℚ,
    BookRun [Sample.offerRecord] pipeline.book ∧
      ∃ record, (0, record) ∈ served Sample.servedLabels ∧
        record.response = Sample.offerRecord.response := by
  obtain ⟨pipeline, run⟩ := Sample.servedRun
  obtain ⟨bookRun, _, _, _, answered, _⟩ := service_linearizable run (by decide)
  exact ⟨pipeline, bookRun, answered 0 _ (by simp [Sample.servedLabels])⟩

end MarketSandbox
