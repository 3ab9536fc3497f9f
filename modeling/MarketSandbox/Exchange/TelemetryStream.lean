/-
This file proves what a subscriber of the telemetry sees, and that trading does
not depend on it. The sequence numbers are given to the operations that find a
subscriber at their start, and each such operation publishes its record, so the
records a subscriber takes carry consecutive numbers; an operation that begins
after a subscriber has joined and ends before it leaves is among them. A run
without its telemetry, in which every operation finds no subscriber, is a run.
-/

import MarketSandbox.Exchange.MarketStream

namespace MarketSandbox

open Transition

variable {Price : Type}

/-! ### Sequence numbers -/

section Definitions

variable [LT Price]

/-- The sequence numbers of the telemetry records published. -/
def publishedSeqs (labels : List (EngineLabel Price)) : List Nat :=
  (Broadcast.published (telemetrySteps labels)).flatten.map fun report => report.trace.seq

theorem publishedSeqs_concat (labels : List (EngineLabel Price)) (label : EngineLabel Price) :
    publishedSeqs (labels ++ [label]) = publishedSeqs labels ++
      ((label.telemetry?.bind Broadcast.Label.publication?).getD []).map fun report =>
        report.trace.seq := by
  unfold publishedSeqs
  rw [telemetrySteps_concat]
  cases selected : label.telemetry? with
  | none => simp
  | some step =>
    rw [Option.toList_some, Broadcast.published_concat]
    cases publication : step.publication? <;> simp [publication]

end Definitions

section Numbers

variable [PriceOperations Price]

/-- The records published, and the one still to be published, have the numbers from one on. -/
theorem publishedSeqs_eq {labels : List (EngineLabel Price)} {engine : Engine Price}
    (run : EngineRun labels engine) :
    publishedSeqs labels ++ engine.phase.seq?.toList = List.range' 1 engine.seq := by
  refine run.invariant (fun labels engine => publishedSeqs labels ++ engine.phase.seq?.toList =
    List.range' 1 engine.seq) ?_ ?_
  · rintro engine rfl
    rfl
  intro labels source label target _ numbered step
  by_cases samples : ∃ message telemetryOn, label = .sample message telemetryOn
  · obtain ⟨message, telemetryOn, rfl⟩ := samples
    obtain ⟨idle, _, rfl⟩ := step
    rw [idle] at numbered
    replace numbered : publishedSeqs labels = List.range' 1 source.seq := by
      simpa [Phase.seq?] using numbered
    rw [publishedSeqs_concat, numbered]
    cases telemetryOn with
    | false => simp [EngineLabel.telemetry?, Engine.sample, Phase.seq?]
    | true =>
      simp [EngineLabel.telemetry?, Engine.sample, Phase.seq?, List.range'_1_concat, Nat.add_comm]
  · have phaseStep := engine_phaseStep step
    rw [engineStep_seq step fun message telemetryOn same => samples ⟨message, telemetryOn, same⟩,
      ← numbered, publishedSeqs_concat]
    generalize source.phase = before at phaseStep ⊢
    generalize target.phase = after at phaseStep ⊢
    cases phaseStep with
    | sample message telemetryOn => exact absurd ⟨message, telemetryOn, rfl⟩ samples
    | report message record report =>
      simp [Phase.seq?, EngineLabel.telemetry?, Broadcast.Label.publication?]
    | reportEnds => simp [Phase.seq?, EngineLabel.telemetry?, Broadcast.Label.publication?]
    | other _ _ _ _ _ reports => simp [reports]
    | perform | promise | skip | publish | publishEnds | finish =>
      simp [Phase.seq?, EngineLabel.telemetry?]

/-- A part of consecutive numbers is consecutive. -/
theorem eq_range'_of_isInfix {part : List Nat} {start count : Nat}
    (isPart : part <:+: List.range' start count) :
    ∃ first, part = List.range' first part.length := by
  obtain ⟨front, back, whole⟩ := isPart
  obtain ⟨bound, _, frontPart, _⟩ := List.range'_eq_append_iff.mp whole.symm
  obtain ⟨skipped, _, _, same⟩ := List.range'_eq_append_iff.mp frontPart.symm
  refine ⟨start + skipped * 1, ?_⟩
  rw [same, List.length_range']

/-- The records a subscriber takes have consecutive numbers. -/
theorem dequeued_consecutive {labels : List (EngineLabel Price)} {engine : Engine Price}
    (run : EngineRun labels engine) (id : Nat) : ∃ first,
    ((Broadcast.dequeued id (telemetrySteps labels)).map fun report => report.trace.seq) =
      List.range' first (Broadcast.dequeued id (telemetrySteps labels)).length := by
  have taken := Broadcast.dequeued_isPrefix run.telemetryRun id
  have consecutive := (Broadcast.segment_isInfix run.telemetryRun id).flatten
  have numbers : publishedSeqs labels <+: List.range' 1 engine.seq := ⟨_, publishedSeqs_eq run⟩
  have part := ((taken.isInfix.trans consecutive).map
    fun report : TelemetryRecord Price => report.trace.seq).trans numbers.isInfix
  obtain ⟨first, same⟩ := eq_range'_of_isInfix part
  rw [List.length_map] at same
  exact ⟨first, same⟩

end Numbers

/-! ### The operations a subscriber is owed -/

section Attendance

variable [LT Price]

/-- Follow a subscriber of the telemetry: whether it is subscribed, and whether its subscription
has returned, that is the count has been stored since. -/
def attend (id : Nat) (state : Bool × Bool) : EngineLabel Price → Bool × Bool
  | .telemetry (.subscribe other) => (state.1 || other == id, state.2)
  | .telemetry (.unsubscribe other) => (state.1 && other != id, state.2 && other != id)
  | .count => (state.1, state.1)
  | _ => state

/-- A subscription has returned, and its end has not begun. -/
def attends (id : Nat) (labels : List (EngineLabel Price)) : Bool :=
  (labels.foldl (attend id) (false, false)).2

/-- The last step of an operation: the publication of its record, or none where it has made no
record. -/
inductive EngineLabel.Ends : EngineLabel Price → Prop
  | finish : Ends .finish
  | publish (reports : List (TelemetryRecord Price)) (order : List Nat) :
      Ends (.telemetry (.publish reports order))

/-- Where an operation that began some steps ago stands. -/
inductive Pursued (message : QueueMessage Price) (seq : Option Nat)
    (labels : List (EngineLabel Price)) : Phase Price → Prop
  | sampled : Pursued message seq labels (.sampled message seq)
  | matched (record : Record Price) (isPerformed : .perform record ∈ labels) :
      Pursued message seq labels (.matched message seq record)
  | promised (record : Record Price) (isPerformed : .perform record ∈ labels) :
      Pursued message seq labels (.promised message seq record)
  | publishing (record : Record Price) (isPerformed : .perform record ∈ labels) :
      Pursued message seq labels (.publishing message seq record)
  | published (record : Record Price) (isPerformed : .perform record ∈ labels) :
      Pursued message seq labels (.published message seq record)
  | reporting : Pursued message seq labels .reporting
  | idle : Pursued message seq labels .idle

theorem Pursued.mono {message : QueueMessage Price} {seq : Option Nat}
    {front back : List (EngineLabel Price)} {phase : Phase Price}
    (pursued : Pursued message seq front phase) (subset : front ⊆ back) :
    Pursued message seq back phase := by
  cases pursued with
  | sampled => exact .sampled
  | matched record isPerformed => exact .matched record (subset isPerformed)
  | promised record isPerformed => exact .promised record (subset isPerformed)
  | publishing record isPerformed => exact .publishing record (subset isPerformed)
  | published record isPerformed => exact .published record (subset isPerformed)
  | reporting => exact .reporting
  | idle => exact .idle

end Attendance

section Owed

variable [PriceOperations Price]

theorem Pursued.step {message : QueueMessage Price} {seq : Option Nat}
    {labels : List (EngineLabel Price)} {before after : Phase Price} {label : EngineLabel Price}
    (pursued : Pursued message seq labels before) (step : Phase.Step before label after)
    (samples : ∀ message telemetryOn, label ≠ .sample message telemetryOn) :
    Pursued message seq (labels ++ [label]) after := by
  have kept := pursued.mono (List.subset_append_left labels [label])
  cases step with
  | sample message telemetryOn => exact absurd rfl (samples message telemetryOn)
  | perform _ _ record =>
    cases kept with
    | sampled => exact .matched record (List.mem_append_right _ List.mem_cons_self)
  | promise =>
    cases kept with
    | matched _ isPerformed => exact .promised _ isPerformed
  | skip =>
    cases kept with
    | promised _ isPerformed => exact .published _ isPerformed
  | publish =>
    cases kept with
    | promised _ isPerformed => exact .publishing _ isPerformed
  | publishEnds =>
    cases kept with
    | publishing _ isPerformed => exact .published _ isPerformed
  | finish => exact .idle
  | report => exact .reporting
  | reportEnds => exact .idle
  | other => exact kept

theorem Pursued.steps {message : QueueMessage Price} {seq : Option Nat}
    {front back : List (EngineLabel Price)} {source target : Engine Price}
    (pursued : Pursued message seq front source.phase)
    (steps : Steps (engineSystem Price) source back target)
    (samples : ∀ message telemetryOn, .sample message telemetryOn ∉ back) :
    Pursued message seq (front ++ back) target.phase := by
  induction steps generalizing front with
  | nil => rwa [List.append_nil]
  | @cons first second last label labels head tail inductionHypothesis =>
    have next := pursued.step (engine_phaseStep head) fun message telemetryOn same =>
      samples message telemetryOn (same ▸ List.mem_cons_self)
    have rest := inductionHypothesis next fun message telemetryOn member =>
      samples message telemetryOn (List.mem_cons_of_mem _ member)
    rwa [List.append_assoc] at rest

/-- A subscriber whose subscription has returned is subscribed, and the count is not zero. -/
structure Attended (id : Nat) (labels : List (EngineLabel Price)) (engine : Engine Price) :
    Prop where
  subscribed : (labels.foldl (attend id) (false, false)).1 =
    Broadcast.subscribed id (telemetrySteps labels)
  counted : attends id labels = true →
    (labels.foldl (attend id) (false, false)).1 = true ∧ engine.count ≠ 0

theorem attended {labels : List (EngineLabel Price)} {engine : Engine Price}
    (run : EngineRun labels engine) (id : Nat) : Attended id labels engine := by
  refine run.invariant (Attended id) ?_ ?_
  · rintro engine rfl
    exact ⟨rfl, nofun⟩
  intro labels source label target prior held step
  have sound := Broadcast.run_sound (EngineRun.telemetryRun prior)
  obtain ⟨subscribed, counted⟩ := held
  have concat : (labels ++ [label]).foldl (attend id) (false, false) =
      attend id (labels.foldl (attend id) (false, false)) label := List.foldl_concat ..
  unfold attends at counted
  constructor
  · rw [concat, telemetrySteps_concat]
    cases label with
    | telemetry label =>
      rw [EngineLabel.telemetry?, Option.toList_some, Broadcast.subscribed_concat, ← subscribed]
      cases label <;> rfl
    | sample | perform | promise | skip | market | finish | count =>
      exact subscribed.trans (by simp [EngineLabel.telemetry?])
  · unfold attends
    rw [concat]
    cases label with
    | telemetry label =>
      have sameCount : target.count = source.count := (telemetryStep_other step).2.2.2
      rw [sameCount]
      cases label with
      | subscribe other =>
        intro returned
        exact ⟨by simp [attend, (counted returned).1], (counted returned).2⟩
      | unsubscribe other =>
        intro returned
        obtain ⟨returned, different⟩ := Bool.and_eq_true_iff.mp returned
        exact ⟨by simpa [attend, (counted returned).1] using different, (counted returned).2⟩
      | publish | append | next | release | dequeue => exact counted
    | count =>
      obtain ⟨_, rfl⟩ := step
      intro returned
      refine ⟨returned, fun none => ?_⟩
      have member := (sound.member id).mp (subscribed.symm.trans returned)
      rw [List.length_eq_zero_iff.mp none] at member
      exact nomatch member
    | sample message telemetryOn =>
      obtain ⟨_, _, rfl⟩ := step
      rw [(sample_other source message telemetryOn).2.2.2.1]
      exact counted
    | perform record =>
      obtain ⟨_, _, _, _, _, rfl⟩ := step
      exact counted
    | promise resultPromise result =>
      obtain ⟨_, _, _, _, _, _, rfl⟩ := step
      exact counted
    | skip =>
      obtain ⟨_, _, _, _, _, rfl⟩ := step
      exact counted
    | market label =>
      rw [(marketStep_other step).2.2.2.1]
      exact counted
    | finish =>
      obtain ⟨_, _, _, rfl⟩ := step
      exact counted

/-- A subscriber that attends goes on to until it begins to leave. -/
theorem attends_append {labels back : List (EngineLabel Price)} {engine : Engine Price} {id : Nat}
    (run : EngineRun labels engine) (attending : attends id labels = true)
    (stays : .telemetry (.unsubscribe id) ∉ back) : attends id (labels ++ back) = true := by
  have both : labels.foldl (attend id) (false, false) = (true, true) :=
    Prod.ext ((attended run id).counted attending).1 attending
  have kept : back.foldl (attend id) (true, true) = (true, true) := by
    clear attending both
    induction back with
    | nil => rfl
    | cons label labels inductionHypothesis =>
      have first : .telemetry (.unsubscribe id) ≠ label := fun same =>
        stays (same ▸ List.mem_cons_self)
      have rest : .telemetry (.unsubscribe id) ∉ labels := fun member =>
        stays (List.mem_cons_of_mem _ member)
      have same : attend id (true, true) label = (true, true) := by
        unfold attend
        split
        · rfl
        · rename_i other
          have different : other ≠ id := fun equal => first (by rw [equal])
          simp [different]
        · rfl
        · rfl
      rw [List.foldl_cons, same]
      exact inductionHypothesis rest
  unfold attends
  rw [List.foldl_append, both, kept]

/-- An operation that begins while a subscriber attends, and ends before it begins to leave,
publishes its record while it is subscribed. -/
theorem operation_reported {before working : List (EngineLabel Price)}
    {message : QueueMessage Price} {telemetryOn : Bool} {ending : EngineLabel Price}
    {source target : Engine Price} {id : Nat}
    (run : EngineRun (before ++ .sample message telemetryOn :: working) source)
    (step : (engineSystem Price).step source ending target)
    (attending : attends id before = true) (stays : .telemetry (.unsubscribe id) ∉ working)
    (samples : ∀ message telemetryOn, .sample message telemetryOn ∉ working)
    (ends : ending.Ends) : ∃ record trace order, .perform record ∈ working ∧
      ending = .telemetry (.publish [record.telemetry trace] order) ∧
      Broadcast.subscribed id
        (telemetrySteps (before ++ .sample message telemetryOn :: working)) = true := by
  obtain ⟨first, prior, steps⟩ := run.split
  have still : attends id (before ++ .sample message telemetryOn :: working) = true := by
    refine attends_append prior attending fun member => stays ?_
    exact (List.mem_cons.mp member).resolve_left nofun
  have subscribed : Broadcast.subscribed id
      (telemetrySteps (before ++ .sample message telemetryOn :: working)) = true :=
    (attended run id).subscribed.symm.trans ((attended run id).counted still).1
  -- the sample finds the subscriber, so the operation has a sequence number
  cases steps with
  | @cons _ second _ _ _ head tail =>
  obtain ⟨_, rfl, rfl⟩ := head
  have counted : first.count ≠ 0 := ((attended prior id).counted attending).2
  have pursued : Pursued message (some (first.seq + 1)) []
      (first.sample message (first.count != 0)).phase := by
    rw [bne_iff_ne.mpr counted]
    exact .sampled
  replace pursued := pursued.steps tail samples
  rw [List.nil_append] at pursued
  cases ends with
  | finish =>
    obtain ⟨_, _, published, _⟩ := step
    rw [published] at pursued
    exact nomatch pursued
  | publish reports order =>
    obtain ⟨_, _, record, trace, _, _, published, _, _, _, rfl, _, _⟩ := step
    have report : source.report record trace = record.telemetry trace := by
      have book : source.book = record.after :=
        run.book_eq (by rw [published]; rfl)
      rw [Engine.report, book, ← record.telemetry_depth trace]
    rw [published] at pursued
    cases pursued with
    | published _ isPerformed =>
      exact ⟨record, trace, order, isPerformed, by rw [report], subscribed⟩

end Owed

/-! ### Trading does not depend on telemetry -/

section Quiet

/-- A step of a run with telemetry in the run without it. -/
def EngineLabel.mute [LT Price] : EngineLabel Price → Option (EngineLabel Price)
  | .sample message _ => some (.sample message false)
  | .telemetry (.publish _ _) => some .finish
  | .telemetry _ | .count => none
  | label => some label

/-- Where an operation stands in the run without telemetry. -/
def Phase.mute [LT Price] : Phase Price → Phase Price
  | .idle | .reporting => .idle
  | .sampled message _ => .sampled message none
  | .matched message _ record => .matched message none record
  | .promised message _ record => .promised message none record
  | .publishing message _ record => .publishing message none record
  | .published message _ record => .published message none record

/-- A step that is a part of trading: an operation on the book, a result given to a client, and
everything about the market data. -/
def EngineLabel.isTrading [LT Price] : EngineLabel Price → Bool
  | .perform _ | .promise _ _ | .skip | .market _ => true
  | .sample _ _ | .finish | .telemetry _ | .count => false

variable [PriceOperations Price]

/-- The engine in the run without telemetry. -/
def Engine.mute (engine : Engine Price) : Engine Price :=
  { (Engine.initial : Engine Price) with
    book := engine.book
    phase := engine.phase.mute
    market := engine.market }

/-- Leaving out the telemetry of a run gives a run. -/
theorem mute_run {labels : List (EngineLabel Price)} {engine : Engine Price}
    (run : EngineRun labels engine) :
    EngineRun (labels.filterMap EngineLabel.mute) engine.mute := by
  refine run.view Engine.mute EngineLabel.mute ?_ ?_ ?_
  · rintro engine rfl
    rfl
  · intro source label target muted step selected
    cases label with
    | sample message telemetryOn =>
      obtain rfl := Option.some_inj.mp selected
      obtain ⟨idle, _, rfl⟩ := step
      refine ⟨congrArg Phase.mute idle, rfl, ?_⟩
      cases telemetryOn <;> rfl
    | perform record =>
      obtain rfl := Option.some_inj.mp selected
      obtain ⟨message, _, sampled, payload, performs, rfl⟩ := step
      exact ⟨message, none, congrArg Phase.mute sampled, payload, performs, rfl⟩
    | promise resultPromise result =>
      obtain rfl := Option.some_inj.mp selected
      obtain ⟨message, _, record, matched, isPromise, isResult, rfl⟩ := step
      exact ⟨message, none, record, congrArg Phase.mute matched, isPromise, isResult, rfl⟩
    | skip =>
      obtain rfl := Option.some_inj.mp selected
      obtain ⟨message, _, record, promised, empty, rfl⟩ := step
      exact ⟨message, none, record, congrArg Phase.mute promised, empty, rfl⟩
    | market label =>
      obtain rfl := Option.some_inj.mp selected
      cases label with
      | publish events order =>
        obtain ⟨message, _, record, market, promised, nonempty, isEvents, publishes, rfl⟩ := step
        exact ⟨message, none, record, market, congrArg Phase.mute promised, nonempty, isEvents,
          publishes, rfl⟩
      | release =>
        obtain ⟨message, _, record, market, publishing, releases, rfl⟩ := step
        exact ⟨message, none, record, market, congrArg Phase.mute publishing, releases, rfl⟩
      | subscribe | unsubscribe | next | queue =>
        obtain ⟨market, moves, rfl⟩ := step
        exact ⟨market, moves, rfl⟩
    | finish =>
      obtain rfl := Option.some_inj.mp selected
      obtain ⟨message, record, published, rfl⟩ := step
      exact ⟨message, record, congrArg Phase.mute published, rfl⟩
    | telemetry label =>
      cases label with
      | publish reports order =>
        obtain rfl := Option.some_inj.mp selected
        obtain ⟨message, _, record, _, _, _, published, _, _, _, _, _, rfl⟩ := step
        exact ⟨message, record, congrArg Phase.mute published, rfl⟩
      | subscribe | unsubscribe | append | next | release | dequeue => exact nomatch selected
    | count => exact nomatch selected
  · intro source label target step unselected
    cases label with
    | telemetry label =>
      cases label with
      | publish reports order => exact nomatch unselected
      | release =>
        obtain ⟨_, reporting, _, rfl⟩ := step
        rw [Engine.mute, Engine.mute, reporting]
        rfl
      | subscribe | unsubscribe =>
        obtain ⟨_, _, _, rfl⟩ := step
        rfl
      | append | next | dequeue =>
        obtain ⟨_, _, rfl⟩ := step
        rfl
    | count =>
      obtain ⟨_, rfl⟩ := step
      rfl
    | sample | perform | promise | skip | market | finish => exact nomatch unselected

/-- The run without telemetry has the same trading. -/
theorem mute_trading (labels : List (EngineLabel Price)) :
    (labels.filterMap EngineLabel.mute).filter EngineLabel.isTrading =
      labels.filter EngineLabel.isTrading := by
  induction labels with
  | nil => rfl
  | cons label labels inductionHypothesis =>
    have each : label.mute.toList.filter EngineLabel.isTrading =
        [label].filter EngineLabel.isTrading := by
      cases label with
      | telemetry label => cases label <;> rfl
      | sample | perform | promise | skip | market | finish | count => rfl
    have split : (label :: labels).filterMap EngineLabel.mute =
        label.mute.toList ++ labels.filterMap EngineLabel.mute := by
      cases muted : label.mute <;> simp [muted]
    rw [split, List.filter_append, each, inductionHypothesis, ← List.filter_append,
      List.singleton_append]

/-- The run without telemetry has no subscriber of the telemetry. -/
theorem mute_telemetrySteps (labels : List (EngineLabel Price)) :
    telemetrySteps (labels.filterMap EngineLabel.mute) = [] := by
  refine List.filterMap_eq_nil_iff.mpr fun muted member => ?_
  obtain ⟨label, _, selected⟩ := List.mem_filterMap.mp member
  cases label with
  | telemetry label =>
    cases label with
    | publish reports order =>
      obtain rfl := Option.some_inj.mp selected
      rfl
    | subscribe | unsubscribe | append | next | release | dequeue => exact nomatch selected
  | sample | perform | promise | skip | market | finish =>
    obtain rfl := Option.some_inj.mp selected
    rfl
  | count => exact nomatch selected

/-- What the client gives to an operation: the payload and the time at which it is performed. -/
def Record.input (record : Record Price) : Operation Price × Nat :=
  (record.operation, record.timestamp)

/-- The operations and their timestamps determine a run of the book. -/
theorem bookRun_determined {records others : List (Record Price)} {book other : OrderBook Price}
    (run : BookRun records book) (otherRun : BookRun others other)
    (same : records.map Record.input = others.map Record.input) :
    records = others ∧ book = other := by
  induction run generalizing others other with
  | start initial =>
    obtain rfl := List.map_eq_nil_iff.mp same.symm
    exact ⟨rfl, initial.trans otherRun.of_nil.symm⟩
  | @next labels source target record _ step inductionHypothesis =>
    rw [List.map_append] at same
    obtain ⟨front, back, rfl, sameFront, sameBack⟩ := List.map_eq_append_iff.mp same.symm
    obtain ⟨last, rfl, sameLast⟩ := List.map_eq_singleton_iff.mp sameBack
    obtain ⟨otherSource, prior, otherStep⟩ := otherRun.last
    obtain ⟨rfl, rfl⟩ := inductionHypothesis prior sameFront.symm
    obtain ⟨before, after, performs⟩ := step
    obtain ⟨otherBefore, otherAfter, otherPerforms⟩ := otherStep
    obtain ⟨sameOperation, sameTimestamp⟩ := Prod.mk.inj sameLast
    rw [sameOperation, sameTimestamp, performs, Option.some_inj, OrderBook.Outcome.mk.injEq]
      at otherPerforms
    obtain ⟨sameBook, sameResult, sameEvents⟩ := otherPerforms
    have sameRecord : record = last := by
      cases record
      cases last
      simp_all
    exact ⟨by rw [sameRecord], sameBook⟩

end Quiet

/-- Telemetry is complete for each subscriber, and trading does not depend on it: a subscriber
takes records with consecutive numbers; the record of every operation that begins after its
subscription has returned and ends before it begins to leave is among those owed to it, of which
it takes all; the run without any telemetry trades the same, as does every other run with the same
operations and timestamps. -/
theorem telemetry_complete_and_invisible [PriceOperations Price]
    {labels : List (EngineLabel Price)} {engine : Engine Price} (run : EngineRun labels engine) :
    (∀ id, ∃ first,
      ((Broadcast.dequeued id (telemetrySteps labels)).map fun report => report.trace.seq) =
        List.range' first (Broadcast.dequeued id (telemetrySteps labels)).length) ∧
    (∀ id before message telemetryOn working ending after,
      labels = before ++ .sample message telemetryOn :: working ++ ending :: after →
      attends id before = true → .telemetry (.unsubscribe id) ∉ working →
      (∀ message telemetryOn, .sample message telemetryOn ∉ working) → ending.Ends →
      ∃ record trace order, .perform record ∈ working ∧
        ending = .telemetry (.publish [record.telemetry trace] order) ∧
        record.telemetry trace ∈ (Broadcast.segment id (telemetrySteps labels)).flatten) ∧
    (∀ id, Broadcast.dequeued id (telemetrySteps labels) <+:
        (Broadcast.segment id (telemetrySteps labels)).flatten ∧
      (engine.telemetry.work = none → ∀ target,
        (engineSystem Price).step engine (.telemetry (.dequeue id none)) target →
        Broadcast.dequeued id (telemetrySteps labels) =
          (Broadcast.segment id (telemetrySteps labels)).flatten)) ∧
    (∃ quiet other, EngineRun quiet other ∧ telemetrySteps quiet = [] ∧
      quiet.filter EngineLabel.isTrading = labels.filter EngineLabel.isTrading ∧
      other.book = engine.book) ∧
    (∀ quiet other, EngineRun quiet other →
      (performed quiet).map Record.input = (performed labels).map Record.input →
      performed quiet = performed labels ∧ other.book = engine.book) := by
  refine ⟨dequeued_consecutive run, ?_, ?_, ?_, ?_⟩
  · intro id before message telemetryOn working ending after whole attending stays samples ends
    subst whole
    obtain ⟨source, prior, steps⟩ := run.split
    cases steps with
    | cons head _ =>
    obtain ⟨record, trace, order, isPerformed, rfl, subscribed⟩ :=
      operation_reported prior head attending stays samples ends
    refine ⟨record, trace, order, isPerformed, rfl, ?_⟩
    have grown := Broadcast.segment_isPrefix id
      (telemetrySteps (before ++ .sample message telemetryOn :: working ++
        [EngineLabel.telemetry (.publish [record.telemetry trace] order)])) (telemetrySteps after)
    rw [telemetrySteps_concat, EngineLabel.telemetry?, Option.toList_some,
      Broadcast.segment_concat] at grown
    have split : telemetrySteps (before ++ .sample message telemetryOn :: working ++
        .telemetry (.publish [record.telemetry trace] order) :: after) =
        telemetrySteps (before ++ .sample message telemetryOn :: working) ++
          [Broadcast.Label.publish [record.telemetry trace] order] ++ telemetrySteps after := by
      rw [telemetrySteps, List.filterMap_append, List.append_assoc]
      rfl
    rw [split]
    refine List.mem_flatten.mpr ⟨_, grown.subset ?_, List.mem_singleton_self _⟩
    simp [Broadcast.follow, subscribed]
  · intro id
    refine ⟨Broadcast.dequeued_isPrefix run.telemetryRun id, fun free target step => ?_⟩
    exact Broadcast.dequeued_eq_of_empty run.telemetryRun free (telemetryStep_telemetry step)
  · exact ⟨_, _, mute_run run, mute_telemetrySteps labels, mute_trading labels, rfl⟩
  · intro quiet other quietRun same
    exact bookRun_determined quietRun.bookRun run.bookRun same

/-! ### A subscriber of the telemetry -/

namespace Sample

/-- The first part of the run: a subscriber joins, and then the operation begins. -/
def joinLabels : List (EngineLabel ℚ) := [.telemetry (.subscribe 1), .count]

/-- The trace of the operation. -/
def askTrace : PipelineTrace := ⟨1, 0, 0, 10, 11, 12, 13⟩

/-- The steps of the operation between its sample and its last. -/
def workLabels : List (EngineLabel ℚ) :=
  [.perform firstAsk, .promise (some 7) firstAsk.result,
    .market (.publish firstAsk.events []), .market .release]

/-- The publication of its record. -/
def reportLabel : EngineLabel ℚ := .telemetry (.publish [firstAsk.telemetry askTrace] [1])

theorem reportRun : ∃ engine,
    EngineRun (joinLabels ++ .sample askMessage true :: workLabels ++ [reportLabel]) engine := by
  have start : EngineRun ([] : List (EngineLabel ℚ)) .initial := .start rfl
  have joined : EngineRun (_ ++ [EngineLabel.telemetry (.subscribe 1)]) _ :=
    start.next ⟨_, rfl, ⟨rfl, rfl, rfl⟩, rfl⟩
  have counted : EngineRun (_ ++ [EngineLabel.count]) _ := joined.next ⟨rfl, rfl⟩
  have sampled : EngineRun (_ ++ [EngineLabel.sample askMessage true]) _ :=
    counted.next ⟨rfl, rfl, rfl⟩
  have matched : EngineRun (_ ++ [EngineLabel.perform firstAsk]) _ :=
    sampled.next ⟨_, _, rfl, rfl, submitRecord_step _ _ _, rfl⟩
  have promised : EngineRun (_ ++ [EngineLabel.promise (some 7) firstAsk.result]) _ :=
    matched.next ⟨_, _, _, rfl, rfl, rfl, rfl⟩
  have publishing : EngineRun (_ ++ [EngineLabel.market (.publish firstAsk.events [])]) _ :=
    promised.next ⟨_, _, _, _, rfl, by decide, rfl, ⟨rfl, .refl _, rfl⟩, rfl⟩
  have published : EngineRun (_ ++ [EngineLabel.market .release]) _ :=
    publishing.next ⟨_, _, _, _, rfl, ⟨rfl, rfl⟩, rfl⟩
  have reported : EngineRun (_ ++ [reportLabel]) _ :=
    published.next ⟨_, _, _, askTrace, _, rfl, rfl, rfl, rfl, rfl, rfl, ⟨rfl, .refl _, rfl⟩, rfl⟩
  exact ⟨_, reported⟩

end Sample

theorem telemetry_complete_and_invisible_sample : ∃ (record : Record ℚ) (trace : PipelineTrace),
    record.telemetry trace ∈ (Broadcast.segment 1 (telemetrySteps
      (Sample.joinLabels ++ .sample Sample.askMessage true :: Sample.workLabels ++
        [Sample.reportLabel]))).flatten := by
  obtain ⟨engine, run⟩ := Sample.reportRun
  have stays : .telemetry (.unsubscribe 1) ∉ Sample.workLabels := by
    simp [Sample.workLabels]
  have samples : ∀ message telemetryOn, .sample message telemetryOn ∉ Sample.workLabels := by
    simp [Sample.workLabels]
  obtain ⟨record, trace, _, _, _, owed⟩ := (telemetry_complete_and_invisible run).2.1 1 _ _ _ _ _
    [] rfl rfl stays samples (.publish _ _)
  exact ⟨record, trace, owed⟩

end MarketSandbox
