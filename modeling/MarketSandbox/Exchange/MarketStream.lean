/-
This file proves what a subscriber of the market data sees. The engine
publishes the event lists of its operations whole and in the order in which it
performs the operations, leaving out those without events; a subscriber, whose
reader takes its queue's memory accesses between those of the publication,
dequeues a prefix of the lists published between its joining and its leaving,
which are consecutive ones, and all of them once it finds its queue empty while
nothing is being published.
-/

import MarketSandbox.Exchange.Engine

namespace MarketSandbox

open Transition MPSCQueue

variable {Price : Type}

/-- The event lists of operations that the engine publishes: those with events. -/
def eventLists [LT Price] (records : List (Record Price)) :
    List (List (MarketEvent Price)) :=
  (records.map Record.events).filter fun events => !events.isEmpty

/-! ### The order of the publications -/

theorem eventLists_append [LT Price] (front back : List (Record Price)) :
    eventLists (front ++ back) = eventLists front ++ eventLists back := by
  rw [eventLists, List.map_append, List.filter_append]
  rfl

variable [PriceOperations Price]

/-- The publication that a step on the market data begins. -/
theorem published_marketSteps_concat (labels : List (EngineLabel Price))
    (label : EngineLabel Price) :
    Broadcast.published (publications (marketSteps (labels ++ [label]))) =
      Broadcast.published (publications (marketSteps labels)) ++
        (label.market?.bind PublisherLabel.publication?).toList := by
  rw [marketSteps_concat, published_publications, published_publications, List.filterMap_append]
  congr 1
  cases label.market? with
  | none => rfl
  | some step => cases publication : step.publication? <;> simp [publication]

/-- The publications are the event lists of the operations performed, in order, but for one that
is still to be published. -/
theorem publications_in_order {labels : List (EngineLabel Price)} {engine : Engine Price}
    (run : EngineRun labels engine) :
    Broadcast.published (publications (marketSteps labels)) ++
      eventLists engine.phase.unpublished?.toList = eventLists (performed labels) := by
  refine run.invariant (fun labels engine =>
    Broadcast.published (publications (marketSteps labels)) ++
      eventLists engine.phase.unpublished?.toList = eventLists (performed labels)) ?_ ?_
  · rintro engine rfl
    rfl
  intro labels source label target _ ordered step
  have phaseStep := engine_phaseStep step
  rw [performed_concat, eventLists_append, ← ordered, published_marketSteps_concat]
  generalize source.phase = before at phaseStep ⊢
  generalize target.phase = after at phaseStep ⊢
  cases phaseStep with
  | skip message seq record empty =>
    simp [Phase.unpublished?, eventLists, empty, EngineLabel.market?, EngineLabel.performed?]
  | publish message seq record order nonempty =>
    simp [Phase.unpublished?, eventLists, nonempty, EngineLabel.market?, EngineLabel.performed?,
      PublisherLabel.publication?]
  | other _ _ _ performs publishes =>
    simp [performs, publishes, eventLists]
  | publishEnds =>
    simp [Phase.unpublished?, eventLists, EngineLabel.market?, EngineLabel.performed?,
      PublisherLabel.publication?]
  | sample | perform | promise | finish | report | reportEnds =>
    simp [Phase.unpublished?, eventLists, EngineLabel.market?, EngineLabel.performed?]

/-! ### What a subscriber sees -/

/-- A run ends with a call of dequeue that finds a subscriber's queue empty, and nothing is being
published during the call. -/
def FoundEmpty (id : Nat) (labels : List (EngineLabel Price)) : Prop :=
  ∃ front middle source, labels = front ++ .market (.queue id .dequeueCall) ::
      (middle ++ [EngineLabel.market (.queue id (.dequeueReturn none))]) ∧
    EngineRun front source ∧ source.market.work = none ∧
    ∀ label ∈ middle, ∀ step, label.market? = some step → step.During id

/-- A subscriber that finds its queue empty while nothing is being published has dequeued all that
was published while it was subscribed. -/
theorem dequeued_of_foundEmpty {labels : List (EngineLabel Price)} {engine : Engine Price}
    (run : EngineRun labels engine) {id : Nat} (empty : FoundEmpty id labels) :
    dequeued id (marketSteps labels) =
      (Broadcast.segment id (publications (marketSteps labels))).flatten := by
  obtain ⟨front, middle, source, whole, before, unused, during⟩ := empty
  have split : marketSteps labels = marketSteps front ++ .queue id .dequeueCall ::
      (marketSteps middle ++ [PublisherLabel.queue id (.dequeueReturn none)]) := by
    rw [whole]
    simp [marketSteps, EngineLabel.market?]
  refine all_dequeued split run.marketRun before.marketRun unused fun step member => ?_
  obtain ⟨label, inside, selected⟩ := List.mem_filterMap.mp member
  exact during label inside step selected

/-- Every subscriber of the market data sees a gap-free segment of the event stream, made of whole
operations in the order in which they were performed; and it has seen all of it when it finds its
queue empty while nothing is being published. -/
theorem market_data_gap_free {labels : List (EngineLabel Price)} {engine : Engine Price}
    (run : EngineRun labels engine) (id : Nat) :
    Broadcast.published (publications (marketSteps labels)) <+: eventLists (performed labels) ∧
      Broadcast.segment id (publications (marketSteps labels)) <:+:
        Broadcast.published (publications (marketSteps labels)) ∧
      dequeued id (marketSteps labels) <+:
        (Broadcast.segment id (publications (marketSteps labels))).flatten ∧
      (FoundEmpty id labels → dequeued id (marketSteps labels) =
        (Broadcast.segment id (publications (marketSteps labels))).flatten) :=
  ⟨⟨_, publications_in_order run⟩, segment_isInfix run.marketRun id,
    dequeued_isPrefix run.marketRun id, dequeued_of_foundEmpty run⟩

/-! ### A subscriber that joins during an operation -/

namespace Sample

/-- A request with the first ask. -/
def askMessage : QueueMessage ℚ := ⟨firstAsk.operation, some 7, 0, 0⟩

/-- A bid takes a part of the ask. -/
def partialBid : Record ℚ := submitRecord firstAsk.after 2 ⟨.bid, .limit, 101, 2, "ORD-1", "mom-1"⟩

/-- A request with the bid. -/
def partialMessage : QueueMessage ℚ := ⟨partialBid.operation, some 8, 0, 0⟩

/-- The bid's trade, and the top of the book after it. -/
def partialTrade : MarketEvent ℚ := partialBid.events.head (by decide)

def partialTop : MarketEvent ℚ := partialBid.events.getLast (by decide)

/-- The trade is enqueued, and the reader takes it. -/
def tradeSteps : List (MPSCQueue.Label Unit (MarketEvent ℚ)) :=
  List.replicate 6 (Label.producer ()) ++ [Label.enqueueReturn () partialTrade, .dequeueCall] ++
    List.replicate 4 Label.consumer

/-- While the enqueue of the top is in progress, the reader returns with the trade, and finds
nothing more. -/
def topSteps : List (MPSCQueue.Label Unit (MarketEvent ℚ)) :=
  [Label.dequeueReturn (some partialTrade), .dequeueCall, .consumer, .consumer, .consumer] ++
    List.replicate 6 (Label.producer ()) ++ [Label.dequeueReturn none, .enqueueReturn () partialTop]

/-- The reader takes the top. -/
def takeSteps : List (MPSCQueue.Label Unit (MarketEvent ℚ)) :=
  .dequeueCall :: List.replicate 4 Label.consumer ++ [Label.dequeueReturn (some partialTop)]

/-- The reader finds its queue empty. -/
def emptySteps : List (MPSCQueue.Label Unit (MarketEvent ℚ)) :=
  [.dequeueCall, .consumer, .consumer, .consumer, .dequeueReturn none]

/-- Steps of the queue of the subscriber. -/
def onQueue (steps : List (MPSCQueue.Label Unit (MarketEvent ℚ))) : List (EngineLabel ℚ) :=
  steps.map fun label => .market (.queue 1 label)

/-- The engine processes the ask; a subscriber joins while it processes the bid. -/
def joiningLabels : List (EngineLabel ℚ) :=
  [.sample askMessage false, .perform firstAsk, .promise (some 7) firstAsk.result,
    .market (.publish firstAsk.events []), .market .release, .finish, .sample partialMessage false,
    .market (.subscribe 1), .perform partialBid, .promise (some 8) partialBid.result,
    .market (.publish partialBid.events [1])]

/-- It reads both events of the bid, the second only after the publication has ended. -/
def readLabels : List (EngineLabel ℚ) :=
  joiningLabels ++ [EngineLabel.market (.queue 1 (.enqueueCall () partialTrade))] ++
    onQueue tradeSteps ++ [EngineLabel.market (.queue 1 (.enqueueCall () partialTop))] ++
    onQueue topSteps ++ [EngineLabel.market .next] ++ [EngineLabel.market .release] ++
    [EngineLabel.finish] ++ onQueue takeSteps

/-- The engine after the bid, with the state of the subscriber's queue. -/
def reading (queue : MPSCQueue.State Unit (MarketEvent ℚ))
    (work : Option (List (Nat × List (MarketEvent ℚ)))) (phase : Phase ℚ) : Engine ℚ :=
  { (Engine.initial : Engine ℚ) with
    book := partialBid.after
    phase := phase
    market := ⟨2, [1], Function.update (fun _ => .start) 1 queue, work⟩ }

section Reading

variable {queue : MPSCQueue.State Unit (MarketEvent ℚ)}
  {work : Option (List (Nat × List (MarketEvent ℚ)))} {phase : Phase ℚ}
  {labels : List (EngineLabel ℚ)}

/-- A step of the queue that hands over no event. -/
theorem reading_step {next : MPSCQueue.State Unit (MarketEvent ℚ)}
    {label : MPSCQueue.Label Unit (MarketEvent ℚ)} (noCall : called [label] = [])
    (performs : perform queue label = some next) :
    (engineSystem ℚ).step (reading queue work phase) (.market (.queue 1 label))
      (reading next work phase) := by
  have same : Function.update (Function.update (fun _ => .start) 1 queue) 1 next =
      Function.update (fun _ => MPSCQueue.State.start) 1 next := Function.update_idem ..
  refine ⟨_, ⟨Nat.one_lt_two, next, by simpa [reading] using performs, ?_⟩, rfl⟩
  cases label with
  | enqueueCall producer event => cases noCall
  | enqueueReturn | dequeueCall | dequeueReturn | producer | consumer =>
    simp only [MarketDataPublisher.queueStep, reading, same]

/-- Steps of the queue that hand over no event. -/
theorem reading_steps {steps : List (MPSCQueue.Label Unit (MarketEvent ℚ))}
    (run : EngineRun labels (reading queue work phase)) (noCall : called steps = [])
    (executes : (execute (fun _ _ => True) queue steps).isSome = true) :
    EngineRun (labels ++ onQueue steps)
      (reading ((execute (fun _ _ => True) queue steps).get executes) work phase) := by
  obtain ⟨last, executed⟩ := Option.isSome_iff_exists.mp executes
  simp only [executed, Option.get_some]
  clear executes
  induction steps generalizing labels queue with
  | nil =>
    obtain rfl := Option.some.inj executed
    rwa [onQueue, List.map_nil, List.append_nil]
  | cons label steps inductionHypothesis =>
    obtain ⟨noCallNow, noCallLater⟩ := List.append_eq_nil_iff.mp
      ((called_append [label] steps).symm.trans noCall)
    rw [execute, if_pos trivial] at executed
    cases performs : perform queue label with
    | none =>
      rw [performs] at executed
      cases executed
    | some next =>
      rw [performs] at executed
      have first : EngineRun (labels ++ [EngineLabel.market (.queue 1 label)])
          (reading next work phase) :=
        run.next (reading_step noCallNow performs)
      have rest := inductionHypothesis first noCallLater executed
      rwa [List.append_assoc] at rest

/-- An event is handed over. -/
theorem reading_call {event : MarketEvent ℚ} {events : List (MarketEvent ℚ)}
    (run : EngineRun labels (reading queue (some [(1, event :: events)]) phase))
    (performs : (perform queue (.enqueueCall () event)).isSome = true) :
    EngineRun (labels ++ [EngineLabel.market (.queue 1 (.enqueueCall () event))])
      (reading ((perform queue (.enqueueCall () event)).get performs) (some [(1, events)])
        phase) := by
  have same : Function.update (Function.update (fun _ => .start) 1 queue) 1
      ((perform queue (.enqueueCall () event)).get performs) =
      Function.update (fun _ => MPSCQueue.State.start) 1
        ((perform queue (.enqueueCall () event)).get performs) := Function.update_idem ..
  refine run.next
    ⟨_, ⟨Nat.one_lt_two, _, (Option.some_get performs).symm, events, [], rfl, rfl⟩, ?_⟩
  simp only [reading, same]

end Reading

/-- The subscriber has joined, and the bid's events are being published. -/
theorem joiningRun : EngineRun joiningLabels
    (reading .start (some [(1, partialBid.events)])
      (.publishing partialMessage none partialBid)) := by
  have start : EngineRun ([] : List (EngineLabel ℚ)) .initial := .start rfl
  have sampled : EngineRun (_ ++ [EngineLabel.sample askMessage false]) _ :=
    start.next ⟨rfl, rfl, rfl⟩
  have matched : EngineRun (_ ++ [EngineLabel.perform firstAsk]) _ :=
    sampled.next ⟨_, _, rfl, rfl, submitRecord_step _ _ _, rfl⟩
  have promised : EngineRun (_ ++ [EngineLabel.promise (some 7) firstAsk.result]) _ :=
    matched.next ⟨_, _, _, rfl, rfl, rfl, rfl⟩
  have publishing : EngineRun (_ ++ [EngineLabel.market (.publish firstAsk.events [])]) _ :=
    promised.next ⟨_, _, _, _, rfl, by decide, rfl, ⟨rfl, .refl _, rfl⟩, rfl⟩
  have published : EngineRun (_ ++ [EngineLabel.market .release]) _ :=
    publishing.next ⟨_, _, _, _, rfl, ⟨rfl, rfl⟩, rfl⟩
  have finished : EngineRun (_ ++ [EngineLabel.finish]) _ := published.next ⟨_, _, rfl, rfl⟩
  have second : EngineRun (_ ++ [EngineLabel.sample partialMessage false]) _ :=
    finished.next ⟨rfl, rfl, rfl⟩
  have joined : EngineRun (_ ++ [EngineLabel.market (.subscribe 1)]) _ :=
    second.next ⟨_, ⟨rfl, rfl, rfl⟩, rfl⟩
  have performed : EngineRun (_ ++ [EngineLabel.perform partialBid]) _ :=
    joined.next ⟨_, _, rfl, rfl, submitRecord_step _ _ _, rfl⟩
  have answered : EngineRun (_ ++ [EngineLabel.promise (some 8) partialBid.result]) _ :=
    performed.next ⟨_, _, _, rfl, rfl, rfl, rfl⟩
  exact answered.next ⟨_, _, _, _, rfl, by decide, rfl, ⟨rfl, .refl _, rfl⟩, rfl⟩

/-- The run before the reader asks for the last time, and the whole run. -/
theorem streamRun : ∃ before after : MPSCQueue.State Unit (MarketEvent ℚ),
    EngineRun readLabels (reading before none .idle) ∧
      EngineRun (readLabels ++ onQueue emptySteps) (reading after none .idle) := by
  have tradeCalled := reading_call joiningRun (by decide +kernel)
  have traded := @reading_steps _ _ _ _ tradeSteps tradeCalled (by decide) (by decide +kernel)
  have topCalled := reading_call traded (by decide +kernel)
  have topped := @reading_steps _ _ _ _ topSteps topCalled (by decide) (by decide +kernel)
  have handed : EngineRun (_ ++ [EngineLabel.market .next]) (reading _ (some []) _) :=
    topped.next ⟨_, ⟨1, [], rfl, by decide +kernel, rfl⟩, rfl⟩
  have published : EngineRun (_ ++ [EngineLabel.market .release])
      (reading _ none (.published partialMessage none partialBid)) :=
    handed.next ⟨_, _, _, _, rfl, ⟨rfl, rfl⟩, rfl⟩
  have finished : EngineRun (_ ++ [EngineLabel.finish]) (reading _ none .idle) :=
    published.next ⟨_, _, rfl, rfl⟩
  have taken := @reading_steps _ _ _ _ takeSteps finished (by decide) (by decide +kernel)
  have emptied := @reading_steps _ _ _ _ emptySteps taken (by decide) (by decide +kernel)
  exact ⟨_, _, taken, emptied⟩

/-- The subscriber finds its queue empty while nothing is being published. -/
theorem stream_foundEmpty : FoundEmpty 1 (readLabels ++ onQueue emptySteps) := by
  obtain ⟨before, _, run, _⟩ := streamRun
  refine ⟨readLabels, List.replicate 3 (.market (.queue 1 .consumer)), _, rfl, run, rfl, ?_⟩
  intro label member step selected
  obtain rfl := List.eq_of_mem_replicate member
  obtain rfl := Option.some.inj selected
  exact fun _ => rfl

end Sample

theorem market_data_gap_free_sample :
    dequeued 1 (marketSteps (Sample.readLabels ++ Sample.onQueue Sample.emptySteps)) =
      [Sample.partialTrade, Sample.partialTop] := by
  obtain ⟨_, _, _, run⟩ := Sample.streamRun
  rw [(market_data_gap_free run 1).2.2.2 Sample.stream_foundEmpty]
  rfl

end MarketSandbox
