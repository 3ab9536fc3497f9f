/-
This file models the matching engine with its two publishers and all their
subscribers. The engine's thread takes an operation from the queue and
processes it in steps that anything else may happen between: it samples
whether telemetry has subscribers, performs the operation on the book, sets the
promise of the caller, publishes the market events, and publishes the telemetry
record if it has made one. Meanwhile subscribers of both kinds join, leave and
read their queues. The subscribers of telemetry are counted by a store of its
own, which the sample does not wait for.
-/

import MarketSandbox.Exchange.Publisher
import MarketSandbox.Exchange.Telemetry

namespace MarketSandbox

open Transition

variable {Price : Type}

/-- `QueueMessage`; the promise, where there is one, is named by its caller. -/
structure QueueMessage (Price : Type) where
  payload : Operation Price
  resultPromise : Option Nat
  tRpcIn : Int
  tEnqueue : Int

/-- A default-constructed event, whose variant holds nothing; a slot holds it until it is filled. -/
instance : Inhabited (MarketEvent Price) := ⟨.monostate⟩

/-- Where `MatchingEngine::process` stands: the message, the sequence number of the telemetry
record if telemetry was on, and the record of the operation once it is performed. -/
inductive Phase (Price : Type) [LT Price]
  | idle
  | sampled (message : QueueMessage Price) (seq : Option Nat)
  | matched (message : QueueMessage Price) (seq : Option Nat) (record : Record Price)
  | promised (message : QueueMessage Price) (seq : Option Nat) (record : Record Price)
  | publishing (message : QueueMessage Price) (seq : Option Nat) (record : Record Price)
  | published (message : QueueMessage Price) (seq : Option Nat) (record : Record Price)
  | reporting

/-- The engine: `_book`, `_seq`, where it stands, `_publisher`, `_telemetry` with its `_count`, and
whether somebody holds the mutex of `_telemetry` to store the count. -/
structure Engine (Price : Type) [LT Price] where
  book : OrderBook Price
  seq : Nat
  phase : Phase Price
  market : MarketDataPublisher (MarketEvent Price)
  telemetry : Broadcast.State (TelemetryRecord Price)
  count : Nat
  counting : Bool

/-- The steps. -/
inductive EngineLabel (Price : Type) [LT Price]
  | sample (message : QueueMessage Price) (telemetryOn : Bool)
  | perform (record : Record Price)
  | promise (resultPromise : Option Nat) (result : EngineResult Price)
  | skip
  | market (label : PublisherLabel (MarketEvent Price))
  | finish
  | telemetry (label : Broadcast.Label (TelemetryRecord Price))
  | count

section Model

variable [PriceOperations Price]

/-- A new engine. -/
def Engine.initial : Engine Price where
  book := .empty
  seq := 0
  phase := .idle
  market := .initial
  telemetry := Broadcast.initial
  count := 0
  counting := false

/-- `MatchingEngine::process` up to the operation: `_telemetry.hasSubscribers()` and `++_seq`. -/
def Engine.sample (engine : Engine Price) (message : QueueMessage Price) (telemetryOn : Bool) :
    Engine Price :=
  if telemetryOn then
    { engine with seq := engine.seq + 1, phase := .sampled message (some (engine.seq + 1)) }
  else { engine with phase := .sampled message none }

/-- The telemetry record of an operation, with its depth read from the book when it is published. -/
def Engine.report (engine : Engine Price) (record : Record Price) (trace : PipelineTrace) :
    TelemetryRecord Price :=
  { record.telemetry trace with depth := engine.book.depth 10 }

/-- A step on the market data. -/
def Engine.marketStep (source : Engine Price) (target : Engine Price) :
    PublisherLabel (MarketEvent Price) → Prop
  | .publish events order => ∃ message seq record market,
      source.phase = .promised message seq record ∧ record.events.isEmpty = false ∧
      events = record.events ∧
      (publisherSystem _).step source.market (.publish events order) market ∧
      target = { source with market := market, phase := .publishing message seq record }
  | .release => ∃ message seq record market, source.phase = .publishing message seq record ∧
      (publisherSystem _).step source.market .release market ∧
      target = { source with market := market, phase := .published message seq record }
  | label => ∃ market, (publisherSystem _).step source.market label market ∧
      target = { source with market := market }

/-- A step on the telemetry. -/
def Engine.telemetryStep (source : Engine Price) (target : Engine Price) :
    Broadcast.Label (TelemetryRecord Price) → Prop
  | .subscribe id => ∃ telemetry, source.counting = false ∧
      (Broadcast.system _).step source.telemetry (.subscribe id) telemetry ∧
      target = { source with telemetry := telemetry, counting := true }
  | .unsubscribe id => ∃ telemetry, source.counting = false ∧
      (Broadcast.system _).step source.telemetry (.unsubscribe id) telemetry ∧
      target = { source with telemetry := telemetry, counting := true }
  | .publish reports order => ∃ message seq record trace telemetry, source.counting = false ∧
      source.phase = .published message (some seq) record ∧
      trace.seq = seq ∧ trace.tRpcIn = message.tRpcIn ∧ trace.tEnqueue = message.tEnqueue ∧
      reports = [source.report record trace] ∧
      (Broadcast.system _).step source.telemetry (.publish reports order) telemetry ∧
      target = { source with telemetry := telemetry, phase := .reporting }
  | .release => ∃ telemetry, source.phase = .reporting ∧
      (Broadcast.system _).step source.telemetry .release telemetry ∧
      target = { source with telemetry := telemetry, phase := .idle }
  | label => ∃ telemetry, (Broadcast.system _).step source.telemetry label telemetry ∧
      target = { source with telemetry := telemetry }

/-- The engine as a transition system. -/
def engineSystem (Price : Type) [PriceOperations Price] :
    System (Engine Price) (EngineLabel Price) where
  initial engine := engine = .initial
  step source label target :=
    match label with
    | .sample message telemetryOn => source.phase = .idle ∧ telemetryOn = (source.count != 0) ∧
        target = source.sample message telemetryOn
    | .perform record => ∃ message seq, source.phase = .sampled message seq ∧
        record.operation = message.payload ∧
        (bookSystem Price).step source.book record record.after ∧
        target = { source with book := record.after, phase := .matched message seq record }
    | .promise resultPromise result => ∃ message seq record,
        source.phase = .matched message seq record ∧ resultPromise = message.resultPromise ∧
        result = record.result ∧ target = { source with phase := .promised message seq record }
    | .skip => ∃ message seq record, source.phase = .promised message seq record ∧
        record.events.isEmpty = true ∧
        target = { source with phase := .published message seq record }
    | .market label => source.marketStep target label
    | .finish => ∃ message record, source.phase = .published message none record ∧
        target = { source with phase := .idle }
    | .telemetry label => source.telemetryStep target label
    | .count => source.counting = true ∧
        target =
          { source with count := source.telemetry.subscribers.length, counting := false }

/-- A run of the engine with its subscribers. -/
abbrev EngineRun (labels : List (EngineLabel Price)) (engine : Engine Price) : Prop :=
  Run (engineSystem Price) labels engine

end Model

/-! ### What the labels of a run say -/

section Labels

variable [LT Price]

/-- The record of the operation that a step performs. -/
def EngineLabel.performed? : EngineLabel Price → Option (Record Price)
  | .perform record => some record
  | _ => none

/-- The step on the market data. -/
def EngineLabel.market? : EngineLabel Price → Option (PublisherLabel (MarketEvent Price))
  | .market label => some label
  | _ => none

/-- The step on the telemetry. -/
def EngineLabel.telemetry? : EngineLabel Price → Option (Broadcast.Label (TelemetryRecord Price))
  | .telemetry label => some label
  | _ => none

/-- The operations performed, in order. -/
def performed (labels : List (EngineLabel Price)) : List (Record Price) :=
  labels.filterMap EngineLabel.performed?

/-- The steps on the market data. -/
def marketSteps (labels : List (EngineLabel Price)) : List (PublisherLabel (MarketEvent Price)) :=
  labels.filterMap EngineLabel.market?

/-- The steps on the telemetry. -/
def telemetrySteps (labels : List (EngineLabel Price)) :
    List (Broadcast.Label (TelemetryRecord Price)) :=
  labels.filterMap EngineLabel.telemetry?

/-- The record of the operation in progress, where its events have not been published. -/
def Phase.unpublished? : Phase Price → Option (Record Price)
  | .matched _ _ record | .promised _ _ record => some record
  | .idle | .sampled _ _ | .publishing _ _ _ | .published _ _ _ | .reporting => none

theorem performed_concat (labels : List (EngineLabel Price)) (label : EngineLabel Price) :
    performed (labels ++ [label]) = performed labels ++ label.performed?.toList := by
  rw [performed, List.filterMap_append, ← performed]
  cases record : label.performed? <;> simp [record]

theorem marketSteps_concat (labels : List (EngineLabel Price)) (label : EngineLabel Price) :
    marketSteps (labels ++ [label]) = marketSteps labels ++ label.market?.toList := by
  rw [marketSteps, List.filterMap_append, ← marketSteps]
  cases step : label.market? <;> simp [step]

theorem telemetrySteps_concat (labels : List (EngineLabel Price)) (label : EngineLabel Price) :
    telemetrySteps (labels ++ [label]) = telemetrySteps labels ++ label.telemetry?.toList := by
  rw [telemetrySteps, List.filterMap_append, ← telemetrySteps]
  cases step : label.telemetry? <;> simp [step]

/-- The record of the operation in progress, once it is performed. -/
def Phase.record? : Phase Price → Option (Record Price)
  | .matched _ _ record | .promised _ _ record | .publishing _ _ record |
    .published _ _ record => some record
  | .idle | .sampled _ _ | .reporting => none

/-- The sequence number of a record that is still to be published. -/
def Phase.seq? : Phase Price → Option Nat
  | .sampled _ seq | .matched _ seq _ | .promised _ seq _ | .publishing _ seq _ |
    .published _ seq _ => seq
  | .idle | .reporting => none

end Labels

variable [PriceOperations Price]

/-! ### The parts of a run -/

/-- What a step does to the market data. -/
theorem marketStep_market {source target : Engine Price}
    {label : PublisherLabel (MarketEvent Price)} (step : source.marketStep target label) :
    (publisherSystem _).step source.market label target.market := by
  cases label with
  | publish events order =>
    obtain ⟨_, _, _, market, _, _, _, step, rfl⟩ := step
    exact step
  | release =>
    obtain ⟨_, _, _, market, _, step, rfl⟩ := step
    exact step
  | subscribe | unsubscribe | next | queue =>
    obtain ⟨market, step, rfl⟩ := step
    exact step

/-- A step on the market data leaves the book and the telemetry alone. -/
theorem marketStep_other {source target : Engine Price}
    {label : PublisherLabel (MarketEvent Price)} (step : source.marketStep target label) :
    target.book = source.book ∧ target.seq = source.seq ∧ target.telemetry = source.telemetry ∧
      target.count = source.count ∧ target.counting = source.counting := by
  cases label with
  | publish events order =>
    obtain ⟨_, _, _, market, _, _, _, _, rfl⟩ := step
    exact ⟨rfl, rfl, rfl, rfl, rfl⟩
  | release =>
    obtain ⟨_, _, _, market, _, _, rfl⟩ := step
    exact ⟨rfl, rfl, rfl, rfl, rfl⟩
  | subscribe | unsubscribe | next | queue =>
    obtain ⟨market, _, rfl⟩ := step
    exact ⟨rfl, rfl, rfl, rfl, rfl⟩

/-- What a step does to the telemetry. -/
theorem telemetryStep_telemetry {source target : Engine Price}
    {label : Broadcast.Label (TelemetryRecord Price)} (step : source.telemetryStep target label) :
    (Broadcast.system _).step source.telemetry label target.telemetry := by
  cases label with
  | publish reports order =>
    obtain ⟨_, _, _, _, telemetry, _, _, _, _, _, _, step, rfl⟩ := step
    exact step
  | subscribe | unsubscribe | release =>
    obtain ⟨telemetry, _, step, rfl⟩ := step
    exact step
  | append | next | dequeue =>
    obtain ⟨telemetry, step, rfl⟩ := step
    exact step

/-- A step on the telemetry leaves the book, the sequence number, the market data and the count
alone. -/
theorem telemetryStep_other {source target : Engine Price}
    {label : Broadcast.Label (TelemetryRecord Price)} (step : source.telemetryStep target label) :
    target.book = source.book ∧ target.seq = source.seq ∧ target.market = source.market ∧
      target.count = source.count := by
  cases label with
  | publish reports order =>
    obtain ⟨_, _, _, _, telemetry, _, _, _, _, _, _, _, rfl⟩ := step
    exact ⟨rfl, rfl, rfl, rfl⟩
  | subscribe | unsubscribe | release =>
    obtain ⟨telemetry, _, _, rfl⟩ := step
    exact ⟨rfl, rfl, rfl, rfl⟩
  | append | next | dequeue =>
    obtain ⟨telemetry, _, rfl⟩ := step
    exact ⟨rfl, rfl, rfl, rfl⟩

theorem sample_other (source : Engine Price) (message : QueueMessage Price) (telemetryOn : Bool) :
    (source.sample message telemetryOn).book = source.book ∧
      (source.sample message telemetryOn).market = source.market ∧
      (source.sample message telemetryOn).telemetry = source.telemetry ∧
      (source.sample message telemetryOn).count = source.count ∧
      (source.sample message telemetryOn).counting = source.counting := by
  cases telemetryOn <;> exact ⟨rfl, rfl, rfl, rfl, rfl⟩

/-- A step of the engine's own leaves both publishers alone, and the book unless it performs an
operation. -/
theorem ownStep_other {source target : Engine Price} {label : EngineLabel Price}
    (step : (engineSystem Price).step source label target) (noMarket : label.market? = none)
    (noTelemetry : label.telemetry? = none) :
    target.market = source.market ∧ target.telemetry = source.telemetry ∧
      (label.performed? = none → target.book = source.book) := by
  cases label with
  | market label => exact nomatch noMarket
  | telemetry label => exact nomatch noTelemetry
  | sample message telemetryOn =>
    obtain ⟨_, _, rfl⟩ := step
    obtain ⟨book, market, telemetry, _⟩ := sample_other source message telemetryOn
    exact ⟨market, telemetry, fun _ => book⟩
  | perform record =>
    obtain ⟨_, _, _, _, _, rfl⟩ := step
    exact ⟨rfl, rfl, nofun⟩
  | promise resultPromise result =>
    obtain ⟨_, _, _, _, _, _, rfl⟩ := step
    exact ⟨rfl, rfl, fun _ => rfl⟩
  | skip =>
    obtain ⟨_, _, _, _, _, rfl⟩ := step
    exact ⟨rfl, rfl, fun _ => rfl⟩
  | finish =>
    obtain ⟨_, _, _, rfl⟩ := step
    exact ⟨rfl, rfl, fun _ => rfl⟩
  | count =>
    obtain ⟨_, rfl⟩ := step
    exact ⟨rfl, rfl, fun _ => rfl⟩

/-- What a step does to the operation in progress. -/
inductive Phase.Step : Phase Price → EngineLabel Price → Phase Price → Prop
  | sample (message : QueueMessage Price) (telemetryOn : Bool) (seq : Option Nat) :
      Step .idle (.sample message telemetryOn) (.sampled message seq)
  | perform (message : QueueMessage Price) (seq : Option Nat) (record : Record Price) :
      Step (.sampled message seq) (.perform record) (.matched message seq record)
  | promise (message : QueueMessage Price) (seq : Option Nat) (record : Record Price)
      (resultPromise : Option Nat) (result : EngineResult Price) :
      Step (.matched message seq record) (.promise resultPromise result)
        (.promised message seq record)
  | skip (message : QueueMessage Price) (seq : Option Nat) (record : Record Price)
      (empty : record.events.isEmpty = true) :
      Step (.promised message seq record) .skip (.published message seq record)
  | publish (message : QueueMessage Price) (seq : Option Nat) (record : Record Price)
      (order : List Nat) (nonempty : record.events.isEmpty = false) :
      Step (.promised message seq record) (.market (.publish record.events order))
        (.publishing message seq record)
  | publishEnds (message : QueueMessage Price) (seq : Option Nat) (record : Record Price) :
      Step (.publishing message seq record) (.market .release) (.published message seq record)
  | finish (message : QueueMessage Price) (record : Record Price) :
      Step (.published message none record) .finish .idle
  | report (message : QueueMessage Price) (record : Record Price) (report : TelemetryRecord Price)
      (order : List Nat) :
      Step (.published message (some report.trace.seq) record)
        (.telemetry (.publish [report] order)) .reporting
  | reportEnds : Step .reporting (.telemetry .release) .idle
  | other (phase : Phase Price) (label : EngineLabel Price)
      (samples : ∀ message telemetryOn, label ≠ .sample message telemetryOn)
      (performs : label.performed? = none)
      (publishes : label.market?.bind PublisherLabel.publication? = none)
      (reports : label.telemetry?.bind Broadcast.Label.publication? = none) :
      Step phase label phase

theorem engine_phaseStep {source target : Engine Price} {label : EngineLabel Price}
    (step : (engineSystem Price).step source label target) :
    Phase.Step source.phase label target.phase := by
  cases label with
  | sample message telemetryOn =>
    obtain ⟨idle, _, rfl⟩ := step
    rw [idle]
    cases telemetryOn <;> exact .sample message _ _
  | perform record =>
    obtain ⟨_, _, sampled, _, _, rfl⟩ := step
    rw [sampled]
    exact .perform _ _ record
  | promise resultPromise result =>
    obtain ⟨_, _, _, matched, _, _, rfl⟩ := step
    rw [matched]
    exact .promise _ _ _ resultPromise result
  | skip =>
    obtain ⟨_, _, _, promised, empty, rfl⟩ := step
    rw [promised]
    exact .skip _ _ _ empty
  | market label =>
    cases label with
    | publish events order =>
      obtain ⟨_, _, _, _, promised, nonempty, rfl, _, rfl⟩ := step
      rw [promised]
      exact .publish _ _ _ order nonempty
    | release =>
      obtain ⟨_, _, _, _, publishing, _, rfl⟩ := step
      rw [publishing]
      exact .publishEnds _ _ _
    | subscribe | unsubscribe | next | queue =>
      obtain ⟨_, _, rfl⟩ := step
      exact .other _ _ (fun _ _ same => nomatch same) rfl rfl rfl
  | finish =>
    obtain ⟨_, _, published, rfl⟩ := step
    rw [published]
    exact .finish _ _
  | telemetry label =>
    cases label with
    | publish reports order =>
      obtain ⟨message, _, record, trace, _, _, published, rfl, _, _, rfl, _, rfl⟩ := step
      rw [published]
      have isSeq : (source.report record trace).trace.seq = trace.seq :=
        congrArg PipelineTrace.seq (record.telemetry_trace trace)
      rw [← isSeq]
      exact .report message record (source.report record trace) order
    | release =>
      obtain ⟨_, reporting, _, rfl⟩ := step
      rw [reporting]
      exact .reportEnds
    | subscribe | unsubscribe =>
      obtain ⟨_, _, _, rfl⟩ := step
      exact .other _ _ (fun _ _ same => nomatch same) rfl rfl rfl
    | append | next | dequeue =>
      obtain ⟨_, _, rfl⟩ := step
      exact .other _ _ (fun _ _ same => nomatch same) rfl rfl rfl
  | count =>
    obtain ⟨_, rfl⟩ := step
    exact .other _ _ (fun _ _ same => nomatch same) rfl rfl rfl

/-- Only the sample of an operation changes the sequence number. -/
theorem engineStep_seq {source target : Engine Price} {label : EngineLabel Price}
    (step : (engineSystem Price).step source label target)
    (samples : ∀ message telemetryOn, label ≠ .sample message telemetryOn) :
    target.seq = source.seq := by
  cases label with
  | sample message telemetryOn => exact absurd rfl (samples message telemetryOn)
  | market label => exact (marketStep_other step).2.1
  | telemetry label => exact (telemetryStep_other step).2.1
  | perform record =>
    obtain ⟨_, _, _, _, _, rfl⟩ := step
    rfl
  | promise resultPromise result =>
    obtain ⟨_, _, _, _, _, _, rfl⟩ := step
    rfl
  | skip =>
    obtain ⟨_, _, _, _, _, rfl⟩ := step
    rfl
  | finish =>
    obtain ⟨_, _, _, rfl⟩ := step
    rfl
  | count =>
    obtain ⟨_, rfl⟩ := step
    rfl

section Views

variable {labels : List (EngineLabel Price)} {engine : Engine Price}

/-- The operations performed are a run of the book. -/
theorem EngineRun.bookRun (run : EngineRun labels engine) :
    BookRun (performed labels) engine.book := by
  refine run.view Engine.book EngineLabel.performed? ?_ ?_ ?_
  · rintro engine rfl
    rfl
  · intro source label target record step selected
    cases label with
    | perform performed =>
      obtain rfl := Option.some_inj.mp selected
      obtain ⟨_, _, _, _, step, rfl⟩ := step
      exact step
    | sample | promise | skip | market | finish | telemetry | count => exact nomatch selected
  · intro source label target step unselected
    cases label with
    | market label => exact (marketStep_other step).1
    | telemetry label => exact (telemetryStep_other step).1
    | sample | perform | promise | skip | finish | count =>
      exact (ownStep_other step rfl rfl).2.2 unselected

/-- The steps on the market data are a run of a publisher. -/
theorem EngineRun.marketRun (run : EngineRun labels engine) :
    Run (publisherSystem _) (marketSteps labels) engine.market := by
  refine run.view Engine.market EngineLabel.market? ?_ ?_ ?_
  · rintro engine rfl
    rfl
  · intro source label target other step selected
    cases label with
    | market label =>
      obtain rfl := Option.some_inj.mp selected
      exact marketStep_market step
    | sample | perform | promise | skip | finish | telemetry | count => exact nomatch selected
  · intro source label target step unselected
    cases label with
    | market label => exact nomatch unselected
    | telemetry label => exact (telemetryStep_other step).2.2.1
    | sample | perform | promise | skip | finish | count => exact (ownStep_other step rfl rfl).1

/-- The steps on the telemetry are a run of a publisher. -/
theorem EngineRun.telemetryRun (run : EngineRun labels engine) :
    Run (Broadcast.system _) (telemetrySteps labels) engine.telemetry := by
  refine run.view Engine.telemetry EngineLabel.telemetry? ?_ ?_ ?_
  · rintro engine rfl
    rfl
  · intro source label target other step selected
    cases label with
    | telemetry label =>
      obtain rfl := Option.some_inj.mp selected
      exact telemetryStep_telemetry step
    | sample | perform | promise | skip | market | finish | count => exact nomatch selected
  · intro source label target step unselected
    cases label with
    | telemetry label => exact nomatch unselected
    | market label => exact (marketStep_other step).2.2.1
    | sample | perform | promise | skip | finish | count => exact (ownStep_other step rfl rfl).2.1

/-- The book is as the operation in progress left it. -/
theorem EngineRun.book_eq (run : EngineRun labels engine) {record : Record Price}
    (inProgress : engine.phase.record? = some record) : engine.book = record.after := by
  have latest : ∀ record, engine.phase.record? = some record →
      (performed labels).getLast? = some record := by
    refine run.invariant (fun labels engine => ∀ record, engine.phase.record? = some record →
      (performed labels).getLast? = some record) ?_ ?_
    · rintro engine rfl record ⟨⟩
    intro labels source label target _ latest step record recorded
    have phaseStep := engine_phaseStep step
    rw [performed_concat]
    generalize source.phase = phase at latest phaseStep
    generalize target.phase = after at recorded phaseStep
    cases phaseStep with
    | perform message seq other =>
      obtain rfl := Option.some_inj.mp recorded
      simp [EngineLabel.performed?]
    | other _ _ _ performs =>
      rw [performs, Option.toList_none, List.append_nil]
      exact latest record recorded
    | sample | finish | report | reportEnds => exact nomatch recorded
    | promise | skip | publish | publishEnds =>
      simpa [EngineLabel.performed?] using latest record recorded
  obtain ⟨front, whole⟩ := List.getLast?_eq_some_iff.mp (latest record inProgress)
  have bookRun := run.bookRun
  rw [whole] at bookRun
  obtain ⟨_, _, step⟩ := bookRun.last
  exact step.2.1.symm

end Views

end MarketSandbox
