/-
This file proves that in every run with few enough enqueues dequeue returns only
values that were enqueued, returns none of them twice, and returns no value
before one whose enqueue had returned when the value's own enqueue was called.
-/

import MarketSandbox.Queue.Accounting

namespace MarketSandbox.MPSCQueue

open Transition

variable {Producer Value : Type} {state : State Producer Value} {view : View Value}

/-! ### Every run is sound -/

section Perform

variable [DecidableEq Producer] [DecidableEq Value]

omit [DecidableEq Producer] [DecidableEq Value] in
/-- A call of dequeue starts with the loop around `moveToNextBuffer`. -/
theorem moveToNextBuffer_check (memory : Memory Value) :
    moveToNextBuffer memory .check = resume memory .check true := by
  rw [moveToNextBuffer, resume]
  split
  · rfl
  · rfl

/-- Every step that wraps no counter keeps the machine sound. -/
theorem Sound.step_of_room {label : Label Producer Value} {target : State Producer Value}
    (sound : Sound state view)
    (claims : ∀ producer data, label = .producer producer →
      state.producers producer = .claim data → view.claims + 1 < 2 ^ 32)
    (room : view.Room) (step : perform state label = some target) :
    Sound target (view.observe state label) ∧ view.Grows (view.observe state label) := by
  cases label with
  | enqueueCall producer data =>
    cases pc : state.producers producer <;> simp only [perform, pc, reduceCtorEq] at step
    obtain rfl := Option.some_inj.mp step
    have holds : (ProducerPc.claim data).Holds view := trivial
    refine (sound.read_producer holds fun _ here => ?_).imp_right View.Produces.toGrows
    cases here
  | enqueueReturn producer data =>
    by_cases pc : state.producers producer = .returning data
    · simp only [perform, if_pos pc, Option.some.injEq] at step
      subst step
      have holds : ProducerPc.idle.Holds view := trivial
      refine (sound.read_producer holds fun _ here => ?_).imp_right View.Produces.toGrows
      cases here
    · simp only [perform, if_neg pc, reduceCtorEq] at step
  | dequeueCall =>
    have holds := sound.consumer
    cases pc : state.consumer <;> simp only [perform, pc, reduceCtorEq] at step
    obtain rfl := Option.some_inj.mp step
    rw [pc] at holds
    have entered := holds_moveToNextBuffer sound.represents holds sound.wellFormed .check
    rw [moveToNextBuffer_check] at entered
    exact (sound.read_consumer entered).imp_right View.Consumes.grows
  | dequeueReturn result =>
    by_cases pc : state.consumer = .returning result
    · have holds : ConsumerPc.idle.Holds view := by
        have holds := sound.consumer
        rwa [pc] at holds
      simp only [perform, if_pos pc, Option.some.injEq] at step
      subst step
      exact (sound.read_consumer holds).imp_right View.Consumes.grows
    · simp only [perform, if_neg pc, reduceCtorEq] at step
  | producer producer =>
    refine (sound.perform_producer (fun data pc => ?_) room step).imp_right View.Produces.toGrows
    exact claims producer data rfl pc
  | consumer => exact (sound.perform_consumer step).imp_right View.Consumes.grows

theorem Sound.step {label : Label Producer Value} {target : State Producer Value}
    (sound : Sound state view) (small : view.Small)
    (step : perform state label = some target) :
    Sound target (view.observe state label) ∧ view.Grows (view.observe state label) :=
  have fits := small.fits sound.wellFormed
  sound.step_of_room (fun _ _ _ _ => fits.1) fits.2 step

omit [DecidableEq Producer] [DecidableEq Value] in
theorem Sound.start [Inhabited Value] :
    Sound (.start : State Producer Value) .initial where
  wellFormed := .initial
  represents := .construct
  producers _ := trivial
  consumer := rfl
  distinct _ _ _ here := nomatch here

/-- Every run with few enough enqueues is sound. -/
theorem observed_sound [Inhabited Value] {labels : List (Label Producer Value)}
    {pair : State Producer Value × View Value} (run : Run observed labels pair)
    (few : FewEnqueues labels) : Sound pair.1 pair.2 := by
  refine @Run.invariant_of_admissible _ _ observed FewEnqueues
    (fun _ pair => Sound pair.1 pair.2) labels pair ?_ ?_ ?_ run few
  · exact fun _ _ few => few.of_append
  · rintro ⟨state, view⟩ ⟨rfl, rfl⟩
    exact .start
  · rintro labels ⟨state, view⟩ label ⟨target, grown⟩ before few sound ⟨step, rfl⟩
    exact (sound.step ((callsAccounted before).small few.of_append) step).1

end Perform

/-! ### The values returned -/

/-- The value that `moveToNextBuffer` will hand on. -/
def Caller.inTransit : Caller Value → List Value
  | .taken data => [data]
  | _ => []

/-- The value that has been taken and not yet returned. -/
def ConsumerPc.inTransit : ConsumerPc Value → List Value
  | .moveTail caller => caller.inTransit
  | .moveNext caller => caller.inTransit
  | .collect caller _ => caller.inTransit
  | .returning (some data) => [data]
  | _ => []

theorem inTransit_resume (memory : Memory Value) (caller : Caller Value) (moved : Bool) :
    (resume memory caller moved).inTransit = caller.inTransit := by
  cases caller <;> cases moved <;> simp only [resume] <;> (try split) <;> rfl

theorem inTransit_moveToNextBuffer (memory : Memory Value) (caller : Caller Value) :
    (moveToNextBuffer memory caller).inTransit = caller.inTransit := by
  rw [moveToNextBuffer]
  split
  · rfl
  · exact inTransit_resume memory caller true

section Values

variable {memory after : Memory Value} {next : ConsumerPc Value} {given : List Value}

theorem values_moveTail {caller : Caller Value}
    (step : stepConsumer memory (.moveTail caller) = some (after, next))
    (values : view.channel.values = given ++ (ConsumerPc.moveTail caller).inTransit) :
    view.channel.values = given ++ next.inTransit := by
  simp only [stepConsumer] at step
  split at step <;> cases step
  · rw [inTransit_resume]
    exact values
  · exact values

theorem values_moveNext {caller : Caller Value}
    (step : stepConsumer memory (.moveNext caller) = some (after, next))
    (values : view.channel.values = given ++ (ConsumerPc.moveNext caller).inTransit) :
    view.channel.values = given ++ next.inTransit := by
  simp only [stepConsumer] at step
  split at step <;> cases step
  · rw [inTransit_resume]
    exact values
  · exact values

theorem values_collect {caller : Caller Value} {behind : Address}
    (step : stepConsumer memory (.collect caller behind) = some (after, next))
    (values : view.channel.values = given ++ (ConsumerPc.collect caller behind).inTransit) :
    (view.observeConsumer memory (.collect caller behind)).channel.values =
      given ++ next.inTransit := by
  simp only [stepConsumer] at step
  rw [View.observeConsumer]
  cases garbage : memory.garbageListHead with
  | none =>
    simp only [garbage] at step ⊢
    cases step
    rw [inTransit_resume]
    exact values
  | some address =>
    simp only [garbage] at step ⊢
    split at step <;> cases step
    next older =>
      rw [if_pos older]
      exact values
    next notOlder =>
      rw [if_neg notOlder, inTransit_resume]
      exact values

theorem values_readHandled (step : stepConsumer memory .readHandled = some (after, next))
    (values : view.channel.values =
      given ++ (ConsumerPc.readHandled : ConsumerPc Value).inTransit) :
    (view.observeConsumer memory .readHandled).channel.values = given ++ next.inTransit := by
  simp only [stepConsumer] at step
  rw [View.observeConsumer]
  split at step <;> cases step
  next handled =>
    rw [if_pos handled, inTransit_moveToNextBuffer]
    exact values
  next notHandled =>
    rw [if_neg notHandled]
    exact values

/-- The value of the head slot is delivered. -/
theorem Sound.values_readSet (sound : Sound state view)
    (holds : (ConsumerPc.readSet : ConsumerPc Value).Holds view)
    (step : stepConsumer state.memory .readSet = some (after, next))
    (values : view.channel.values = given ++ (ConsumerPc.readSet : ConsumerPc Value).inTransit) :
    (view.observeConsumer state.memory .readSet).channel.values = given ++ next.inTransit := by
  obtain ⟨_, inside, _⟩ := holds
  have slot := sound.represents.front_slot sound.wellFormed inside
  simp only [stepConsumer, slot] at step
  simp only [View.observeConsumer, slot]
  split at step <;> cases step
  next set =>
    have headBound := sound.wellFormed.live_lt _ sound.wellFormed.head_mem
    have found := sound.represents.data _ headBound _ inside
      (by rw [← View.front, set]; exact SlotState.noConfusion)
    rw [if_pos set, inTransit_moveToNextBuffer, sound.represents.head_eq,
      sound.represents.headOfQueue]
    refine (TicketChannel.values_deliver found).trans ?_
    rw [values.trans (List.append_nil given)]
    rfl
  next notSet =>
    rw [if_neg notSet]
    exact values

theorem values_scanFlag {tempHeadOfQueue : Address} {tempHead : Nat} {moved allHandled : Bool}
    (step : stepConsumer memory (.scanFlag tempHeadOfQueue tempHead moved allHandled) =
      some (after, next))
    (values : view.channel.values = given) : view.channel.values = given ++ next.inTransit := by
  simp only [stepConsumer] at step
  split at step
  · split at step <;> cases step
    · exact values.trans (List.append_nil given).symm
    · exact values.trans (List.append_nil given).symm
  · cases step
    exact values.trans (List.append_nil given).symm

/-- The value at which the second scan arrives is delivered. -/
theorem Sound.values_rescan (sound : Sound state view)
    {tempHeadOfQueue scanHeadOfQueue : Address} {tempHead scanHead : Nat}
    (holds : (ConsumerPc.rescan tempHeadOfQueue tempHead scanHeadOfQueue scanHead :
      ConsumerPc Value).Holds view)
    (step : stepConsumer state.memory
      (.rescan tempHeadOfQueue tempHead scanHeadOfQueue scanHead) = some (after, next))
    (values : view.channel.values = given) :
    (view.observeConsumer state.memory
      (.rescan tempHeadOfQueue tempHead scanHeadOfQueue scanHead)).channel.values =
        given ++ next.inTransit := by
  obtain ⟨_, _, target, index, rescanning⟩ := holds
  have targetBound := sound.wellFormed.live_lt target rescanning.member
  have indexOf : state.memory.indexOf tempHeadOfQueue = target := by
    rw [rescanning.address, sound.indexOf_eq targetBound]
  have found := sound.represents.data target targetBound tempHead rescanning.inside
    (by rw [rescanning.set]; exact SlotState.noConfusion)
  rw [← rescanning.address] at found
  have delivered := TicketChannel.values_deliver found
  rw [values] at delivered
  have still : view.channel.values = given ++ [] := values.trans (List.append_nil given).symm
  simp only [stepConsumer] at step
  simp only [View.observeConsumer, indexOf]
  by_cases arrived : scanHeadOfQueue = tempHeadOfQueue ∧ tempHead ≤ scanHead
  · simp only [if_pos arrived] at step ⊢
    split at step <;> cases step
    next atHead =>
      rw [if_pos atHead, inTransit_moveToNextBuffer]
      exact delivered
    next notAtHead =>
      rw [if_neg notAtHead]
      exact delivered
  · simp only [if_neg arrived] at step ⊢
    split at step
    · split at step <;> cases step
      exact still
    · split at step <;> cases step
      · exact still
      · exact still

/-- The values delivered are those already returned and the one in transit. -/
theorem Sound.consumer_values (sound : Sound state view)
    (step : stepConsumer state.memory state.consumer = some (after, next))
    (values : view.channel.values = given ++ state.consumer.inTransit) :
    (view.observeConsumer state.memory state.consumer).channel.values =
      given ++ next.inTransit := by
  have holds := sound.consumer
  generalize state.consumer = pc at holds step values ⊢
  cases pc with
  | idle => simp only [stepConsumer, reduceCtorEq] at step
  | moveTail => exact values_moveTail step values
  | moveNext => exact values_moveNext step values
  | collect => exact values_collect step values
  | readHandled => exact values_readHandled step values
  | readSet => exact sound.values_readSet holds step values
  | scanFlag => exact values_scanFlag step (values.trans (List.append_nil given))
  | rescan => exact sound.values_rescan holds step (values.trans (List.append_nil given))
  | foldPrev =>
    cases step
    exact values
  | foldFree =>
    cases step
    exact values
  | returning => simp only [stepConsumer, reduceCtorEq] at step
  | _ =>
    -- the accesses that only choose between two ways to go on
    simp only [stepConsumer] at step
    split at step <;> cases step <;> exact values

end Values

theorem observeProducer_values (wellFormed : view.WellFormed) (memory : Memory Value)
    (pc : ProducerPc Value) :
    (view.observeProducer memory pc).channel.values = view.channel.values := by
  cases pc with
  | claim data => exact TicketChannel.values_claim wellFormed.ordered data
  | exchangeNext =>
    rw [View.observeProducer, View.observeLink]
    split
    · split <;> rfl
    · rfl
  | preallocateNext =>
    rw [View.observeProducer, View.observeLink]
    split
    · split <;> rfl
    · rfl
  | exchangeTail => rw [View.observeProducer, View.observeExchange]; split <;> rfl
  | preallocateTail => rw [View.observeProducer, View.observeExchange]; split <;> rfl
  | _ => rfl

/-! ### What a run has delivered -/

/-- What the labels of a run say about the tickets: the values returned have been
delivered, and the enqueues that have returned are published. -/
structure Tickets (labels : List (Label Producer Value)) (state : State Producer Value)
    (view : View Value) : Prop where
  values : view.channel.values = returned labels ++ state.consumer.inTransit
  finished : ∀ producer data, .enqueueReturn producer data ∈ labels → view.Finished data

/-- An enqueue called after another one had returned has a later ticket. -/
def TicketsOrdered (labels : List (Label Producer Value)) (view : View Value) : Prop :=
  ∀ first second : Producer, ∀ early late : Value,
    [.enqueueReturn first early, .enqueueCall second late].Sublist labels →
      ∀ ticket, view.channel.claimed[ticket]? = some late → ∃ before,
        view.channel.claimed[before]? = some early ∧ view.channel.earlier before ticket

/-- Two labels in order in a sequence that has grown by one. -/
theorem sublist_of_concat {Item : Type} {first second last : Item} {items : List Item}
    (ordered : [first, second].Sublist (items ++ [last])) :
    [first, second].Sublist items ∨ (second = last ∧ first ∈ items) := by
  have reversed := List.reverse_sublist.mpr ordered
  rw [List.reverse_append] at reversed
  rcases List.sublist_cons_iff.mp reversed with within | ⟨rest, same, within⟩
  · exact Or.inl (List.reverse_sublist.mp within)
  · obtain ⟨rfl, rfl⟩ := List.cons.inj same
    exact Or.inr ⟨rfl, List.mem_reverse.mp (List.singleton_sublist.mp within)⟩

section Run

variable [DecidableEq Producer] [DecidableEq Value]

theorem Tickets.values_step {labels : List (Label Producer Value)} {label : Label Producer Value}
    {target : State Producer Value} (tickets : Tickets labels state view)
    (sound : Sound state view) (step : perform state label = some target) :
    (view.observe state label).channel.values =
      returned (labels ++ [label]) ++ target.consumer.inTransit := by
  have values := tickets.values
  -- only a return of dequeue returns a value
  have kept {label : Label Producer Value} {rest : List Value} (none : returned [label] = []) :
      returned labels ++ rest = returned (labels ++ [label]) ++ rest := by
    rw [returned_append, none, List.append_nil]
  cases label with
  | enqueueCall producer data =>
    cases pc : state.producers producer <;> simp only [perform, pc, reduceCtorEq] at step
    obtain rfl := Option.some_inj.mp step
    exact values.trans (kept rfl)
  | enqueueReturn producer data =>
    by_cases pc : state.producers producer = .returning data
    · simp only [perform, if_pos pc, Option.some.injEq] at step
      subst step
      exact values.trans (kept rfl)
    · simp only [perform, if_neg pc, reduceCtorEq] at step
  | dequeueCall =>
    cases pc : state.consumer <;> simp only [perform, pc, reduceCtorEq] at step
    obtain rfl := Option.some_inj.mp step
    rw [pc] at values
    rw [inTransit_resume]
    exact values.trans (kept rfl)
  | dequeueReturn result =>
    by_cases pc : state.consumer = .returning result
    · simp only [perform, if_pos pc, Option.some.injEq] at step
      subst step
      rw [pc] at values
      refine values.trans ?_
      rw [returned_append]
      cases result with
      | none => simp [returned, ConsumerPc.inTransit]
      | some data => simp [returned, ConsumerPc.inTransit]
    · simp only [perform, if_neg pc, reduceCtorEq] at step
  | producer producer =>
    cases next : stepProducer state.memory (state.producers producer) with
    | none => simp only [perform, next, reduceCtorEq] at step
    | some result =>
      simp only [perform, next, Option.some.injEq] at step
      subst step
      exact (observeProducer_values sound.wellFormed _ _).trans (values.trans (kept rfl))
  | consumer =>
    cases next : stepConsumer state.memory state.consumer with
    | none => simp only [perform, next, reduceCtorEq] at step
    | some result =>
      simp only [perform, next, Option.some.injEq] at step
      subst step
      exact (sound.consumer_values next values).trans (kept rfl)

omit [DecidableEq Producer] [DecidableEq Value] in
/-- A value claimed by a step was waiting at the producer that takes the step. -/
theorem claimed_of_step {label : Label Producer Value} {ticket : Nat} {data : Value}
    (found : (view.observe state label).channel.claimed[ticket]? = some data) :
    view.channel.claimed[ticket]? = some data ∨
      ∃ producer, label = .producer producer ∧ state.producers producer = .claim data ∧
        ticket = view.claims := by
  cases label with
  | producer producer =>
    by_cases waiting : ∃ value, state.producers producer = .claim value
    · obtain ⟨value, pc⟩ := waiting
      simp only [View.observe, pc, View.observeProducer, View.claim, TicketChannel.claim,
        List.getElem?_append] at found
      split at found
      next old => exact Or.inl found
      next new =>
        obtain ⟨zero, same⟩ := List.getElem?_eq_some_iff.mp found
        have first : ticket - view.channel.claimed.length = 0 := Nat.lt_one_iff.mp zero
        simp only [first, List.getElem_cons_zero] at same
        subst same
        exact Or.inr ⟨producer, rfl, pc, by rw [View.claims]; omega⟩
    · left
      rwa [View.observe, observeProducer_claimed (not_exists.mp waiting)] at found
  | consumer =>
    left
    rwa [View.observe, observeConsumer_claimed] at found
  | _ => exact Or.inl found

theorem Tickets.step {labels : List (Label Producer Value)} {label : Label Producer Value}
    {target : State Producer Value} (tickets : Tickets labels state view)
    (sound : Sound state view) (small : view.Small) (step : perform state label = some target) :
    Tickets (labels ++ [label]) target (view.observe state label) := by
  have grows := (sound.step small step).2
  refine ⟨tickets.values_step sound step, fun producer data member => ?_⟩
  rcases List.mem_append.mp member with member | now
  · exact grows.finished (tickets.finished producer data member)
  · obtain rfl := List.mem_singleton.mp now
    have holds := sound.producers producer
    by_cases pc : state.producers producer = .returning data
    · rw [pc] at holds
      exact grows.finished holds
    · simp only [perform, if_neg pc, reduceCtorEq] at step

theorem TicketsOrdered.step {labels : List (Label Producer Value)} {label : Label Producer Value}
    {target : State Producer Value} (ordered : TicketsOrdered labels view)
    (tickets : Tickets labels state view) (sound : Sound state view)
    (accounted : CallsAccounted labels state view) (small : view.Small)
    (distinct : (called (labels ++ [label])).Nodup) (step : perform state label = some target) :
    TicketsOrdered (labels ++ [label]) (view.observe state label) := by
  have grows := (sound.step small step).2
  intro first second early late sublist ticket found
  rcases sublist_of_concat sublist with within | ⟨rfl, _⟩
  · rcases claimed_of_step found with found | ⟨producer, rfl, pc, rfl⟩
    · obtain ⟨before, earlyFound, earlier⟩ := ordered first second early late within ticket found
      exact ⟨before, grows.claimed_get earlyFound, grows.kept before ticket earlier⟩
    · -- the earlier value was published when the later one claims its ticket
      obtain ⟨before, filled, earlyFound⟩ :=
        tickets.finished first early (within.subset List.mem_cons_self)
      refine ⟨before, grows.claimed_get earlyFound, ?_⟩
      simp only [View.observe, pc, View.observeProducer]
      exact Or.inl ⟨rfl, (sound.wellFormed.published before).mpr filled⟩
  · -- the value called just now has no ticket yet
    have old : view.channel.claimed[ticket]? = some late := found
    have member := accounted.claimed_subset (List.mem_of_getElem? old)
    rw [called_append] at distinct
    exact absurd rfl ((List.nodup_append.mp distinct).2.2 late member late (by simp [called]))

variable [Inhabited Value]

theorem observed_tickets {labels : List (Label Producer Value)}
    {pair : State Producer Value × View Value} (run : Run observed labels pair)
    (few : FewEnqueues labels) : Tickets labels pair.1 pair.2 := by
  refine @Run.invariant_of_admissible _ _ observed FewEnqueues
    (fun labels pair => Tickets labels pair.1 pair.2) labels pair ?_ ?_ ?_ run few
  · exact fun _ _ few => few.of_append
  · rintro ⟨state, view⟩ ⟨rfl, rfl⟩
    exact ⟨rfl, nofun⟩
  · rintro labels ⟨state, view⟩ label ⟨target, grown⟩ before few tickets ⟨step, rfl⟩
    exact tickets.step (observed_sound before few.of_append)
      ((callsAccounted before).small few.of_append) step

theorem observed_ordered {labels : List (Label Producer Value)}
    {pair : State Producer Value × View Value} (run : Run observed labels pair)
    (few : FewEnqueues labels) (distinct : (called labels).Nodup) :
    TicketsOrdered labels pair.2 := by
  refine @Run.invariant_of_admissible _ _ observed
    (fun labels => FewEnqueues labels ∧ (called labels).Nodup)
    (fun labels pair => TicketsOrdered labels pair.2) labels pair ?_ ?_ ?_ run ⟨few, distinct⟩
  · rintro labels label ⟨few, distinct⟩
    rw [called_append] at distinct
    exact ⟨few.of_append, (List.nodup_append.mp distinct).1⟩
  · rintro ⟨state, view⟩ ⟨rfl, rfl⟩
    exact fun _ _ _ _ ordered => absurd ordered.length_le (by simp)
  · rintro labels ⟨state, view⟩ label ⟨target, grown⟩ before ⟨few, distinct⟩ ordered ⟨step, rfl⟩
    have accounted := callsAccounted before
    exact ordered.step (observed_tickets before few.of_append)
      (observed_sound before few.of_append) accounted (accounted.small few.of_append)
      distinct step

/-! ### The results -/

section Results

variable {labels : List (Label Producer Value)} (run : Run system labels state)
  (few : FewEnqueues labels) (distinct : (called labels).Nodup)
include run few distinct

/-- Dequeue returns only values whose enqueue was called, and none of them twice. -/
theorem returned_called : returned labels ⊆ called labels ∧ (returned labels).Nodup := by
  obtain ⟨view, observedRun⟩ := run.withHistory View.initial View.observe
  have accounted := callsAccounted observedRun
  have sound := observed_sound observedRun few
  have values := (observed_tickets observedRun few).values
  constructor
  · intro data member
    refine accounted.claimed_subset (TicketChannel.values_subset ?_)
    rw [values]
    exact List.mem_append_left _ member
  · have nodup := sound.wellFormed.ordered.values_nodup (accounted.claimed_nodup distinct)
    rw [values] at nodup
    exact (List.nodup_append.mp nodup).1

/-- A value is returned before every value whose enqueue was called after its own
enqueue had returned. -/
theorem returned_in_order {first second : Producer} {early late : Value}
    (ordered : [.enqueueReturn first early, .enqueueCall second late].Sublist labels)
    {front back : List (Label Producer Value)}
    (whole : labels = front ++ .dequeueReturn (some late) :: back) :
    .dequeueReturn (some early) ∈ front := by
  obtain ⟨view, observedRun⟩ := run.withHistory View.initial View.observe
  have accounted := callsAccounted observedRun
  have sound := observed_sound observedRun few
  have values := (observed_tickets observedRun few).values
  rw [whole, returned_append] at values
  have split : view.channel.values =
      returned front ++ late :: (returned back ++ state.consumer.inTransit) := by
    rw [values, List.append_assoc]
    rfl
  have claimed : late ∈ view.channel.claimed := TicketChannel.values_subset (by simp [split])
  obtain ⟨ticket, found⟩ := List.mem_iff_getElem?.mp claimed
  obtain ⟨before, earlyFound, earlier⟩ :=
    observed_ordered observedRun few distinct first second early late ordered ticket found
  exact mem_returned.mp (sound.wellFormed.ordered.values_ordered
    (accounted.claimed_nodup distinct) earlier earlyFound found split)

end Results

end Run

end MarketSandbox.MPSCQueue
