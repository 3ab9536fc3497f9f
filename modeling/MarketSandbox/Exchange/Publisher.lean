/-
This file models the publisher of the market data with the queues of its
subscribers. `publish` takes the mutex and enqueues its events, one after
another, on the queue of every subscriber, in any order of the subscribers, one
memory access at a time; subscribers join and leave while nobody holds the
mutex, and their readers dequeue at any time, without the mutex. The publisher
refines a broadcast: an event is appended when its enqueue is called and taken
when a dequeue returns it, and a dequeue that overlaps a publication may find
nothing.
-/

import MarketSandbox.Library.Broadcast
import MarketSandbox.Queue.SingleProducer

namespace MarketSandbox

open Transition MPSCQueue

variable {Event : Type}

/-- `MarketDataPublisher`: `_nextId`, the ids in `_subscribers`, the queue of every subscriber, and
what the `publish` that holds the mutex has still to enqueue. -/
structure MarketDataPublisher (Event : Type) where
  nextId : Nat
  subscribers : List Nat
  queue : Nat → MPSCQueue.State Unit Event
  work : Option (List (Nat × List Event))

/-- The steps. -/
inductive PublisherLabel (Event : Type)
  | subscribe (id : Nat)
  | unsubscribe (id : Nat)
  | publish (events : List Event) (order : List Nat)
  | next
  | release
  | queue (id : Nat) (label : MPSCQueue.Label Unit Event)

section Model

variable [DecidableEq Event] [Inhabited Event]

/-- A publisher nobody has used. -/
def MarketDataPublisher.initial : MarketDataPublisher Event := ⟨1, [], fun _ => .start, none⟩

/-- A step of a subscriber's queue: `publish` calls enqueue, the reader calls dequeue. -/
def MarketDataPublisher.queueStep (source target : MarketDataPublisher Event) (id : Nat)
    (queue : MPSCQueue.State Unit Event) : MPSCQueue.Label Unit Event → Prop
  | .enqueueCall _ event => ∃ events rest, source.work = some ((id, event :: events) :: rest) ∧
      target =
        { source with
          queue := Function.update source.queue id queue
          work := some ((id, events) :: rest) }
  | .enqueueReturn _ _ | .dequeueCall | .dequeueReturn _ | .producer _ | .consumer =>
      target = { source with queue := Function.update source.queue id queue }

/-- The publisher as a transition system. -/
def publisherSystem (Event : Type) [DecidableEq Event] [Inhabited Event] :
    System (MarketDataPublisher Event) (PublisherLabel Event) where
  initial publisher := publisher = .initial
  step source label target :=
    match label with
    | .subscribe id => source.work = none ∧ id = source.nextId ∧
        target =
          { source with
            nextId := source.nextId + 1
            subscribers := source.subscribers ++ [id]
            queue := Function.update source.queue id .start }
    | .unsubscribe id => source.work = none ∧
        target = { source with subscribers := source.subscribers.erase id }
    | .publish events order => source.work = none ∧ order.Perm source.subscribers ∧
        target = { source with work := some (order.map fun id => (id, events)) }
    | .next => ∃ id rest, source.work = some ((id, []) :: rest) ∧
        (source.queue id).producers () = .idle ∧ target = { source with work := some rest }
    | .release => source.work = some [] ∧ target = { source with work := none }
    -- a queue is there once its subscriber has joined
    | .queue id label => id < source.nextId ∧ ∃ queue,
        perform (source.queue id) label = some queue ∧ source.queueStep target id queue label

end Model

/-! ### What the labels of a run say -/

/-- The publication a step begins. -/
def PublisherLabel.publication? : PublisherLabel Event → Option (List Event)
  | .publish events _ => some events
  | _ => none

/-- The step of a broadcast; an event is handed to a subscriber when its enqueue is called, and
taken when dequeue returns it. -/
def PublisherLabel.broadcast? : PublisherLabel Event → Option (Broadcast.Label Event)
  | .subscribe id => some (.subscribe id)
  | .unsubscribe id => some (.unsubscribe id)
  | .publish events order => some (.publish events order)
  | .next => some .next
  | .release => some .release
  | .queue _ (.enqueueCall _ _) => some .append
  | .queue id (.dequeueReturn (some event)) => some (.dequeue id (some event))
  | .queue _ _ => none

/-- The step of a subscriber's queue. -/
def PublisherLabel.queue? (id : Nat) : PublisherLabel Event → Option (MPSCQueue.Label Unit Event)
  | .queue other label => if other = id then some label else none
  | _ => none

/-- The steps of the broadcast. -/
def publications (labels : List (PublisherLabel Event)) : List (Broadcast.Label Event) :=
  labels.filterMap PublisherLabel.broadcast?

/-- The steps of a subscriber's queue. -/
def queueLabels (id : Nat) (labels : List (PublisherLabel Event)) :
    List (MPSCQueue.Label Unit Event) :=
  labels.filterMap (PublisherLabel.queue? id)

/-- The events that a subscriber has dequeued, in order. -/
def dequeued (id : Nat) (labels : List (PublisherLabel Event)) : List Event :=
  returned (queueLabels id labels)

/-- A step that may lie between the call and the return of a dequeue of a subscriber while nothing
is being published: it begins no publication, and on the subscriber's queue it is an access of the
reader. -/
def PublisherLabel.During (id : Nat) : PublisherLabel Event → Prop
  | .publish _ _ => False
  | .queue other label => other = id → label = .consumer
  | _ => True

theorem publications_concat (labels : List (PublisherLabel Event)) (label : PublisherLabel Event) :
    publications (labels ++ [label]) = publications labels ++ label.broadcast?.toList := by
  rw [publications, List.filterMap_append, ← publications]
  cases step : label.broadcast? <;> simp [step]

theorem queueLabels_concat (id : Nat) (labels : List (PublisherLabel Event))
    (label : PublisherLabel Event) :
    queueLabels id (labels ++ [label]) = queueLabels id labels ++ (label.queue? id).toList := by
  rw [queueLabels, List.filterMap_append, ← queueLabels]
  cases step : label.queue? id <;> simp [step]

/-- The publications are those that the steps begin. -/
theorem published_publications (labels : List (PublisherLabel Event)) :
    Broadcast.published (publications labels) =
      labels.filterMap PublisherLabel.publication? := by
  rw [Broadcast.published, publications, List.filterMap_filterMap]
  refine List.filterMap_congr fun label _ => ?_
  cases label with
  | queue id label =>
    cases label with
    | dequeueReturn result => cases result <;> rfl
    | _ => rfl
  | _ => rfl

/-- What the broadcast's steps take is what the queues' steps return. -/
theorem broadcast_dequeued (id : Nat) (labels : List (PublisherLabel Event)) :
    Broadcast.dequeued id (publications labels) = dequeued id labels := by
  rw [Broadcast.dequeued, publications, List.filterMap_filterMap, dequeued, queueLabels, returned,
    List.filterMap_filterMap]
  refine List.filterMap_congr fun label _ => ?_
  cases label with
  | queue other label =>
    by_cases same : other = id
    · cases label with
      | dequeueReturn result => cases result <;> simp [PublisherLabel.broadcast?,
          PublisherLabel.queue?, Broadcast.Label.taken?, same]
      | _ => simp [PublisherLabel.broadcast?, PublisherLabel.queue?, Broadcast.Label.taken?, same]
    · cases label with
      | dequeueReturn result => cases result <;> simp [PublisherLabel.broadcast?,
          PublisherLabel.queue?, Broadcast.Label.taken?, same]
      | _ => simp [PublisherLabel.broadcast?, PublisherLabel.queue?, Broadcast.Label.taken?, same]
  | _ => rfl

/-! ### The queues -/

variable [DecidableEq Event] [Inhabited Event] {labels : List (PublisherLabel Event)}
  {publisher source target : MarketDataPublisher Event}

omit [DecidableEq Event] [Inhabited Event] in
/-- A step of a queue hands over the next event of the publication, or leaves the publication
alone. -/
theorem queueStep_cases {id : Nat} {queue : MPSCQueue.State Unit Event}
    {label : MPSCQueue.Label Unit Event} (step : source.queueStep target id queue label) :
    (∃ event events rest, label = .enqueueCall () event ∧
      source.work = some ((id, event :: events) :: rest) ∧
      target =
        { source with
          queue := Function.update source.queue id queue
          work := some ((id, events) :: rest) }) ∨
    ((∀ event, label ≠ .enqueueCall () event) ∧
      target = { source with queue := Function.update source.queue id queue }) := by
  cases label with
  | enqueueCall producer event =>
    obtain ⟨events, rest, under, isTarget⟩ := step
    exact Or.inl ⟨event, events, rest, rfl, under, isTarget⟩
  | enqueueReturn | dequeueCall | dequeueReturn | producer | consumer =>
    exact Or.inr ⟨by rintro event ⟨⟩, step⟩

omit [DecidableEq Event] [Inhabited Event] in
theorem queueStep_queue {id : Nat} {queue : MPSCQueue.State Unit Event}
    {label : MPSCQueue.Label Unit Event} (step : source.queueStep target id queue label) :
    target.queue = Function.update source.queue id queue ∧ target.nextId = source.nextId ∧
      target.subscribers = source.subscribers := by
  rcases queueStep_cases step with ⟨_, _, _, _, _, rfl⟩ | ⟨_, rfl⟩
  · exact ⟨rfl, rfl, rfl⟩
  · exact ⟨rfl, rfl, rfl⟩

/-- A queue whose subscriber has not joined is new, and nothing has been done with it. -/
theorem publisher_unmade (run : Run (publisherSystem Event) labels publisher) (id : Nat) :
    publisher.nextId ≤ id → publisher.queue id = .start ∧ queueLabels id labels = [] := by
  refine run.invariant (fun labels publisher => publisher.nextId ≤ id →
    publisher.queue id = .start ∧ queueLabels id labels = []) ?_ ?_
  · rintro publisher rfl _
    exact ⟨rfl, rfl⟩
  intro labels source label target _ fresh step later
  rw [queueLabels_concat]
  cases label with
  | subscribe other =>
    obtain ⟨_, rfl, rfl⟩ := step
    simp only [Function.update_of_ne (Nat.ne_of_gt later)]
    obtain ⟨start, nothing⟩ := fresh (Nat.le_of_succ_le later)
    exact ⟨start, by rw [nothing]; rfl⟩
  | unsubscribe | release =>
    obtain ⟨_, rfl⟩ := step
    obtain ⟨start, nothing⟩ := fresh later
    exact ⟨start, by rw [nothing]; rfl⟩
  | publish events order =>
    obtain ⟨_, _, rfl⟩ := step
    obtain ⟨start, nothing⟩ := fresh later
    exact ⟨start, by rw [nothing]; rfl⟩
  | next =>
    obtain ⟨_, _, _, _, rfl⟩ := step
    obtain ⟨start, nothing⟩ := fresh later
    exact ⟨start, by rw [nothing]; rfl⟩
  | queue other label =>
    obtain ⟨made, queue, _, step⟩ := step
    obtain ⟨isQueue, nextId, _⟩ := queueStep_queue step
    rw [nextId] at later
    have different : id ≠ other := (made.trans_le later).ne'
    obtain ⟨start, nothing⟩ := fresh later
    rw [isQueue, Function.update_of_ne different, nothing]
    exact ⟨start, by simp [PublisherLabel.queue?, different.symm]⟩

/-- The steps of a subscriber's queue are a run of the queue. -/
theorem publisher_queueRun (run : Run (publisherSystem Event) labels publisher) (id : Nat) :
    Run MPSCQueue.system (queueLabels id labels) (publisher.queue id) := by
  refine run.refine (fun _ => True) (fun publisher => publisher.queue id)
    (PublisherLabel.queue? id) (fun _ _ _ => trivial) ?_ ?_ ?_ trivial
  · rintro publisher rfl
    rfl
  · intro labels source label target other _ _ step selected
    cases label with
    | queue subscriber label =>
      obtain ⟨_, queue, performs, step⟩ := step
      rw [PublisherLabel.queue?, Option.ite_none_right_eq_some] at selected
      obtain ⟨rfl, same⟩ := selected
      obtain rfl := Option.some.inj same
      rw [(queueStep_queue step).1, Function.update_self]
      exact performs
    | subscribe | unsubscribe | publish | next | release => cases selected
  · intro labels source label target before _ step unselected
    cases label with
    | subscribe other =>
      obtain ⟨_, rfl, rfl⟩ := step
      by_cases same : id = source.nextId
      · subst same
        simp only [Function.update_self]
        exact (publisher_unmade before _ le_rfl).1.symm
      · simp only [Function.update_of_ne same]
    | unsubscribe | release =>
      obtain ⟨_, rfl⟩ := step
      rfl
    | publish events order =>
      obtain ⟨_, _, rfl⟩ := step
      rfl
    | next =>
      obtain ⟨_, _, _, _, rfl⟩ := step
      rfl
    | queue other label =>
      obtain ⟨_, queue, _, step⟩ := step
      have different : id ≠ other := by
        rintro rfl
        rw [PublisherLabel.queue?, if_pos rfl] at unselected
        cases unselected
      rw [(queueStep_queue step).1, Function.update_of_ne different]

/-! ### The broadcast -/

/-- An enqueue is in progress only on the queue that the publication has come to. -/
def MarketDataPublisher.Attends (publisher : MarketDataPublisher Event) : Prop :=
  ∀ id, (publisher.queue id).producers () = .idle ∨
    ∃ events rest, publisher.work = some ((id, events) :: rest)

omit [Inhabited Event] in
/-- A step that is none of a call of enqueue begins none. -/
theorem idle_of_perform {state next : MPSCQueue.State Unit Event}
    {label : MPSCQueue.Label Unit Event} (performs : perform state label = some next)
    (noCall : ∀ event, label ≠ .enqueueCall () event) (idle : state.producers () = .idle) :
    next.producers () = .idle := by
  cases label with
  | enqueueCall producer event => exact absurd rfl (noCall event)
  | enqueueReturn producer event =>
    obtain ⟨returning, _⟩ := perform_enqueueReturn performs
    rw [show producer = () from rfl, idle] at returning
    cases returning
  | dequeueCall =>
    obtain ⟨_, rfl⟩ := perform_dequeueCall performs
    exact idle
  | dequeueReturn result =>
    obtain ⟨_, rfl⟩ := perform_dequeueReturn performs
    exact idle
  | producer producer =>
    obtain ⟨_, _, next, _⟩ := perform_producer performs
    rw [show producer = () from rfl, idle] at next
    cases next
  | consumer =>
    obtain ⟨_, _, _, rfl⟩ := perform_consumer performs
    exact idle

theorem attends_step {label : PublisherLabel Event} (attends : source.Attends)
    (step : (publisherSystem Event).step source label target) : target.Attends := by
  have free (unused : source.work = none) (id : Nat) :
      (source.queue id).producers () = .idle := by
    rcases attends id with idle | ⟨_, _, busy⟩
    · exact idle
    · rw [unused] at busy
      cases busy
  intro id
  cases label with
  | subscribe other =>
    obtain ⟨unused, rfl, rfl⟩ := step
    refine Or.inl ?_
    by_cases same : id = source.nextId
    · subst same
      simp only [Function.update_self]
      rfl
    · simp only [Function.update_of_ne same]
      exact free unused id
  | unsubscribe other =>
    obtain ⟨unused, rfl⟩ := step
    exact Or.inl (free unused id)
  | publish events order =>
    obtain ⟨unused, _, rfl⟩ := step
    exact Or.inl (free unused id)
  | next =>
    obtain ⟨other, rest, under, idle, rfl⟩ := step
    refine Or.inl ?_
    rcases attends id with here | ⟨events, others, busy⟩
    · exact here
    · rw [under] at busy
      cases busy
      exact idle
  | release =>
    obtain ⟨under, rfl⟩ := step
    refine Or.inl ?_
    rcases attends id with here | ⟨events, others, busy⟩
    · exact here
    · rw [under] at busy
      cases busy
  | queue other label =>
    obtain ⟨_, queue, performs, step⟩ := step
    rcases queueStep_cases step with ⟨event, events, rest, rfl, under, rfl⟩ | ⟨noCall, rfl⟩
    · by_cases same : id = other
      · subst same
        exact Or.inr ⟨events, rest, rfl⟩
      · refine Or.inl ?_
        simp only [Function.update_of_ne same]
        rcases attends id with here | ⟨_, _, busy⟩
        · exact here
        · rw [under] at busy
          cases busy
          exact absurd rfl same
    · refine (attends id).imp_left fun idle => ?_
      by_cases same : id = other
      · subst same
        simp only [Function.update_self]
        exact idle_of_perform performs noCall idle
      · simp only [Function.update_of_ne same]
        exact idle

theorem publisher_attends (run : Run (publisherSystem Event) labels publisher) :
    publisher.Attends := by
  refine run.invariant (fun _ publisher => publisher.Attends) ?_ ?_
  · rintro publisher rfl id
    exact Or.inl rfl
  · exact fun labels source label target _ attends step => attends_step attends step

/-- What the publisher and the broadcast it is have in common: a queue of the broadcast holds what
was enqueued and has not been returned. -/
structure Broadcasts (labels : List (PublisherLabel Event))
    (publisher : MarketDataPublisher Event) (broadcast : Broadcast.State Event) : Prop where
  run : Run (Broadcast.system Event) (publications labels) broadcast
  nextId : broadcast.nextId = publisher.nextId
  subscribers : broadcast.subscribers = publisher.subscribers
  work : broadcast.work = publisher.work
  queue : ∀ id, dequeued id labels ++ broadcast.queue id = called (queueLabels id labels)

omit [DecidableEq Event] [Inhabited Event] in
/-- A step of the broadcast on none of the queues. -/
theorem Broadcasts.next {broadcast after : Broadcast.State Event} {label : PublisherLabel Event}
    {step : Broadcast.Label Event} (broadcasts : Broadcasts labels source broadcast)
    (isStep : label.broadcast? = some step)
    (noQueue : ∀ id, label.queue? id = none)
    (moves : (Broadcast.system Event).step broadcast step after)
    (nextId : after.nextId = target.nextId) (subscribers : after.subscribers = target.subscribers)
    (work : after.work = target.work)
    (queue : ∀ id, after.queue id = broadcast.queue id) :
    Broadcasts (labels ++ [label]) target after where
  run := by
    rw [publications_concat, isStep]
    exact broadcasts.run.next moves
  nextId := nextId
  subscribers := subscribers
  work := work
  queue id := by
    rw [queue, dequeued, queueLabels_concat, noQueue, Option.toList_none, List.append_nil]
    exact broadcasts.queue id

omit [DecidableEq Event] [Inhabited Event] in
/-- What a step of a queue returns and what it enqueues. -/
theorem queueLabels_queue (id other : Nat) (label : MPSCQueue.Label Unit Event) :
    dequeued other (labels ++ [PublisherLabel.queue id label]) =
        dequeued other labels ++ (if id = other then returned [label] else []) ∧
      called (queueLabels other (labels ++ [PublisherLabel.queue id label])) =
        called (queueLabels other labels) ++ if id = other then called [label] else [] := by
  rw [dequeued, dequeued, queueLabels_concat, PublisherLabel.queue?, returned_append,
    called_append]
  split_ifs <;> exact ⟨rfl, rfl⟩

omit [DecidableEq Event] [Inhabited Event] in
/-- A step of a queue that hands over no event. -/
theorem Broadcasts.access {broadcast : Broadcast.State Event} {id : Nat}
    {queue : MPSCQueue.State Unit Event} {label : MPSCQueue.Label Unit Event}
    (broadcasts : Broadcasts labels source broadcast)
    (unseen : (PublisherLabel.queue id label).broadcast? = none)
    (noReturn : returned [label] = []) (noCall : called [label] = []) :
    Broadcasts (labels ++ [PublisherLabel.queue id label])
      { source with queue := Function.update source.queue id queue } broadcast where
  run := by
    rw [publications_concat, unseen, Option.toList_none, List.append_nil]
    exact broadcasts.run
  nextId := broadcasts.nextId
  subscribers := broadcasts.subscribers
  work := broadcasts.work
  queue other := by
    obtain ⟨returns, calls⟩ := @queueLabels_queue Event labels id other label
    rw [returns, calls, noReturn, noCall, ite_self, List.append_nil, List.append_nil]
    exact broadcasts.queue other

omit [DecidableEq Event] [Inhabited Event] in
/-- An event is handed to a subscriber's queue. -/
theorem Broadcasts.call {broadcast : Broadcast.State Event} {id : Nat}
    {queue : MPSCQueue.State Unit Event} {event : Event} {events : List Event}
    {rest : List (Nat × List Event)} (broadcasts : Broadcasts labels source broadcast)
    (under : source.work = some ((id, event :: events) :: rest)) :
    Broadcasts (labels ++ [PublisherLabel.queue id (.enqueueCall () event)])
      { source with
        queue := Function.update source.queue id queue
        work := some ((id, events) :: rest) }
      { broadcast with
        queue := Function.update broadcast.queue id (broadcast.queue id ++ [event])
        work := some ((id, events) :: rest) } where
  run := by
    rw [publications_concat]
    exact broadcasts.run.next ⟨id, event, events, rest, broadcasts.work.trans under, rfl⟩
  nextId := broadcasts.nextId
  subscribers := broadcasts.subscribers
  work := rfl
  queue other := by
    obtain ⟨returns, calls⟩ := @queueLabels_queue Event labels id other (.enqueueCall () event)
    rw [returns, calls, ← broadcasts.queue other]
    change _ ++ (if id = other then [] else []) ++
      Function.update broadcast.queue id (broadcast.queue id ++ [event]) other =
        _ ++ if id = other then [event] else []
    rw [ite_self, List.append_nil, List.append_assoc]
    by_cases same : id = other
    · subst same
      rw [Function.update_self, if_pos rfl]
    · rw [Function.update_of_ne (Ne.symm same), if_neg same, List.append_nil]

omit [DecidableEq Event] [Inhabited Event] in
/-- A subscriber's dequeue returns the first event that its queue holds. -/
theorem Broadcasts.answer {broadcast : Broadcast.State Event} {id : Nat}
    {queue : MPSCQueue.State Unit Event} {event : Event}
    (broadcasts : Broadcasts labels source broadcast) (made : id < source.nextId)
    (inOrder : dequeued id (labels ++ [PublisherLabel.queue id (.dequeueReturn (some event))]) <+:
      called (queueLabels id (labels ++ [PublisherLabel.queue id (.dequeueReturn (some event))]))) :
    Broadcasts (labels ++ [PublisherLabel.queue id (.dequeueReturn (some event))])
      { source with queue := Function.update source.queue id queue }
      { broadcast with
        queue := Function.update broadcast.queue id (broadcast.queue id).tail } := by
  have head : broadcast.queue id = event :: (broadcast.queue id).tail := by
    obtain ⟨returns, calls⟩ :=
      @queueLabels_queue Event labels id id (.dequeueReturn (some event))
    rw [returns, calls, ← broadcasts.queue id, if_pos rfl, if_pos rfl] at inOrder
    change dequeued id labels ++ [event] <+: dequeued id labels ++ broadcast.queue id ++ []
      at inOrder
    rw [List.append_nil] at inOrder
    obtain ⟨rest, same⟩ := (List.prefix_append_right_inj _).mp inOrder
    rw [← same]
    rfl
  exact {
    run := by
      rw [publications_concat]
      refine broadcasts.run.next ⟨broadcasts.nextId ▸ made, .inl ⟨?_, rfl⟩⟩
      rw [head]
      rfl
    nextId := broadcasts.nextId
    subscribers := broadcasts.subscribers
    work := broadcasts.work
    queue := by
      intro other
      obtain ⟨returns, calls⟩ :=
        @queueLabels_queue Event labels id other (.dequeueReturn (some event))
      rw [returns, calls, ← broadcasts.queue other]
      change _ ++ (if id = other then [event] else []) ++
        Function.update broadcast.queue id (broadcast.queue id).tail other =
          _ ++ if id = other then [] else []
      rw [ite_self, List.append_nil, List.append_assoc]
      by_cases same : id = other
      · subst same
        rw [Function.update_self, if_pos rfl]
        exact congrArg _ head.symm
      · rw [Function.update_of_ne (Ne.symm same), if_neg same, List.nil_append] }

omit [DecidableEq Event] [Inhabited Event] in
theorem Broadcasts.queueStep {broadcast : Broadcast.State Event} {id : Nat}
    {queue : MPSCQueue.State Unit Event} {label : MPSCQueue.Label Unit Event}
    (broadcasts : Broadcasts labels source broadcast) (made : id < source.nextId)
    (step : source.queueStep target id queue label)
    (inOrder : dequeued id (labels ++ [PublisherLabel.queue id label]) <+:
      called (queueLabels id (labels ++ [PublisherLabel.queue id label]))) :
    ∃ after, Broadcasts (labels ++ [PublisherLabel.queue id label]) target after := by
  cases label with
  | enqueueCall producer event =>
    obtain ⟨events, rest, under, rfl⟩ := step
    exact ⟨_, broadcasts.call under⟩
  | dequeueReturn result =>
    obtain rfl := step
    cases result with
    | none => exact ⟨_, broadcasts.access rfl rfl rfl⟩
    | some event => exact ⟨_, broadcasts.answer made inOrder⟩
  | enqueueReturn | dequeueCall | producer | consumer =>
    obtain rfl := step
    exact ⟨_, broadcasts.access rfl rfl rfl⟩

/-- A run of the publisher is one of a broadcast, whose queues are read one event at a time. -/
theorem publisher_broadcasts (run : Run (publisherSystem Event) labels publisher) :
    ∃ broadcast, Broadcasts labels publisher broadcast := by
  refine run.invariant (fun labels publisher =>
    ∃ broadcast, Broadcasts labels publisher broadcast) ?_ ?_
  · rintro publisher rfl
    exact ⟨Broadcast.initial, .start rfl, rfl, rfl, rfl, fun _ => rfl⟩
  rintro labels source label target before ⟨broadcast, broadcasts⟩ step
  have work := broadcasts.work
  cases label with
  | subscribe id =>
    obtain ⟨unused, rfl, rfl⟩ := step
    refine ⟨_, broadcasts.next rfl (fun _ => rfl) ⟨work.trans unused, broadcasts.nextId.symm, rfl⟩
      ?_ ?_ (work.trans rfl) fun id => ?_⟩
    · exact congrArg (· + 1) broadcasts.nextId
    · exact congrArg (· ++ [source.nextId]) broadcasts.subscribers
    · by_cases same : id = source.nextId
      · subst same
        have nothing := broadcasts.queue source.nextId
        rw [dequeued, (publisher_unmade before _ le_rfl).2] at nothing
        exact (Function.update_self ..).trans nothing.symm
      · simp only [Function.update_of_ne same]
  | unsubscribe id =>
    obtain ⟨unused, rfl⟩ := step
    exact ⟨_, broadcasts.next rfl (fun _ => rfl) ⟨work.trans unused, rfl⟩ broadcasts.nextId
      (congrArg (·.erase id) broadcasts.subscribers) work fun _ => rfl⟩
  | publish events order =>
    obtain ⟨unused, permuted, rfl⟩ := step
    exact ⟨_, broadcasts.next rfl (fun _ => rfl)
      ⟨work.trans unused, broadcasts.subscribers ▸ permuted, rfl⟩ broadcasts.nextId
      broadcasts.subscribers rfl fun _ => rfl⟩
  | next =>
    obtain ⟨id, rest, under, _, rfl⟩ := step
    exact ⟨_, broadcasts.next rfl (fun _ => rfl) ⟨id, rest, work.trans under, rfl⟩
      broadcasts.nextId broadcasts.subscribers rfl fun _ => rfl⟩
  | release =>
    obtain ⟨under, rfl⟩ := step
    exact ⟨_, broadcasts.next rfl (fun _ => rfl) ⟨work.trans under, rfl⟩ broadcasts.nextId
      broadcasts.subscribers rfl fun _ => rfl⟩
  | queue id label =>
    have inOrder := returned_isPrefix (publisher_queueRun (before.next step) id)
    obtain ⟨made, queue, _, step⟩ := step
    exact broadcasts.queueStep made step inOrder

/-! ### What a subscriber dequeues -/

/-- Every event published to a subscriber has reached its queue, or is still to be enqueued. -/
theorem segment_eq (run : Run (publisherSystem Event) labels publisher) (id : Nat) :
    (Broadcast.segment id (publications labels)).flatten =
      called (queueLabels id labels) ++ Broadcast.pending id publisher.work := by
  obtain ⟨broadcast, broadcasts⟩ := publisher_broadcasts run
  rw [(Broadcast.run_sound broadcasts.run).owed id, broadcast_dequeued, broadcasts.queue,
    broadcasts.work]

/-- The publications to a subscriber are consecutive ones. -/
theorem segment_isInfix (run : Run (publisherSystem Event) labels publisher) (id : Nat) :
    Broadcast.segment id (publications labels) <:+: Broadcast.published (publications labels) := by
  obtain ⟨broadcast, broadcasts⟩ := publisher_broadcasts run
  exact Broadcast.segment_isInfix broadcasts.run id

/-- The publications to a subscriber that has not left are the last ones. -/
theorem segment_isSuffix (run : Run (publisherSystem Event) labels publisher) {id : Nat}
    (subscribed : id ∈ publisher.subscribers) :
    Broadcast.segment id (publications labels) <:+ Broadcast.published (publications labels) := by
  obtain ⟨broadcast, broadcasts⟩ := publisher_broadcasts run
  exact (Broadcast.run_sound broadcasts.run).latest id (broadcasts.subscribers ▸ subscribed)

/-- What a subscriber has dequeued is a prefix of what was published while it was subscribed. -/
theorem dequeued_isPrefix (run : Run (publisherSystem Event) labels publisher) (id : Nat) :
    dequeued id labels <+: (Broadcast.segment id (publications labels)).flatten := by
  rw [segment_eq run]
  exact (returned_isPrefix (publisher_queueRun run id)).trans (List.prefix_append ..)

omit [DecidableEq Event] [Inhabited Event] in
/-- While nothing is being published, the steps on the queue of a reader that is in a call are the
accesses of that call. -/
theorem consumes_of_during {id : Nat} (during : ∀ label ∈ labels, label.During id) :
    ∀ label ∈ queueLabels id labels, label = .consumer := by
  intro label member
  obtain ⟨step, inside, selected⟩ := List.mem_filterMap.mp member
  cases step with
  | queue other access =>
    rw [PublisherLabel.queue?, Option.ite_none_right_eq_some] at selected
    obtain ⟨same, isLabel⟩ := selected
    obtain rfl := Option.some.inj isLabel
    exact during _ inside same
  | subscribe | unsubscribe | publish | next | release => cases selected

omit [DecidableEq Event] [Inhabited Event] in
theorem unpublished_of_during {id : Nat} (during : ∀ label ∈ labels, label.During id) :
    ∀ label ∈ publications labels, label.publication? = none := by
  intro label member
  obtain ⟨step, inside, selected⟩ := List.mem_filterMap.mp member
  cases step with
  | publish events order => exact absurd (during _ inside) not_false
  | queue other access =>
    cases access with
    | enqueueCall =>
      obtain rfl := Option.some.inj selected
      rfl
    | dequeueReturn result =>
      cases result with
      | none => cases selected
      | some event =>
        obtain rfl := Option.some.inj selected
        rfl
    | enqueueReturn | dequeueCall | producer | consumer => cases selected
  | subscribe | unsubscribe | next | release =>
    obtain rfl := Option.some.inj selected
    rfl

/-- A subscriber that finds its queue empty while nothing is being published has dequeued all that
was published while it was subscribed. -/
theorem all_dequeued {front middle : List (PublisherLabel Event)} {id : Nat}
    (whole : labels = front ++ .queue id .dequeueCall ::
      (middle ++ [PublisherLabel.queue id (.dequeueReturn none)]))
    (run : Run (publisherSystem Event) labels target)
    (before : Run (publisherSystem Event) front source) (unused : source.work = none)
    (during : ∀ label ∈ middle, label.During id) :
    dequeued id labels = (Broadcast.segment id (publications labels)).flatten := by
  have consumes := consumes_of_during during
  have split : queueLabels id labels = queueLabels id front ++
      .dequeueCall :: (queueLabels id middle ++ [Label.dequeueReturn none]) := by
    rw [whole]
    simp [queueLabels, PublisherLabel.queue?]
  have steps := publisher_queueRun run id
  rw [split] at steps
  obtain ⟨queue, prior, steps⟩ := steps.split
  obtain rfl : queue = source.queue id := by
    refine prior.unique (publisher_queueRun before id)
      (fun _ _ one other => one.trans other.symm) ?_
    exact fun _ _ _ _ one other => Option.some.inj (one.symm.trans other)
  have quiet : Quiet (source.queue id) := by
    rintro ⟨⟩
    rcases publisher_attends before id with idle | ⟨_, _, busy⟩
    · exact idle
    · rw [unused] at busy
      cases busy
  have all := all_returned_of_quiet (publisher_queueRun before id) quiet consumes steps
  have nothing : returned (queueLabels id middle) = [] := by
    refine List.filterMap_eq_nil_iff.mpr fun label member => ?_
    rw [consumes label member]
  have same : Broadcast.segment id (publications labels) =
      Broadcast.segment id (publications front) := by
    rw [whole, publications, List.filterMap_append]
    refine Broadcast.segment_append_of_unpublished id _ _ fun label member => ?_
    have inside : label ∈ publications middle := by
      simpa [publications, PublisherLabel.broadcast?] using member
    exact unpublished_of_during during label inside
  have owed := segment_eq before id
  rw [unused] at owed
  rw [same, owed, ← all, dequeued, split, returned_append]
  change _ ++ returned (queueLabels id middle ++ [Label.dequeueReturn none]) = _ ++ []
  rw [returned_append, nothing]
  rfl

end MarketSandbox
