/-
This file models the gateway across lifetimes of the exchange. A new lifetime
starts with an empty book and with the order ids from the first one on, while
the gateway keeps its normalizer and misses the batches emitted before its new
subscription. An entry of an earlier lifetime can therefore carry the id of an
order of the current one. Attribution stays sound exactly as long as no order
comes to rest unseen under an id whose entry names another node; one run shows
what happens otherwise. Nothing is asked of the quantities.
-/

import MarketSandbox.Exchange.Identity
import MarketSandbox.Gateway.Gaps

namespace MarketSandbox

open Transition

variable {Price : Type}

/-! ### Lifetimes -/

/-- The exchange in its current lifetime, and the gateway. -/
structure GatewayState (Price : Type) [LT Price] where
  lifetime : List (Record Price)
  book : OrderBook Price
  connected : Bool
  normalizer : Normalizer Price

/-- What happens: a new process of the exchange; the telemetry subscription comes up or goes
down; an operation whose batch the gateway misses or receives. -/
inductive GatewayLabel (Price : Type) [LT Price]
  | restart
  | connect
  | disconnect
  | missed (record : Record Price)
  | delivered (delivery : Delivery Price)

section System

variable [PriceArithmetic Price]

/-- The exchange processes an operation, whose order id, if it is a submit, is one that
`OrderIdGenerator` has not given out in this lifetime. -/
def GatewayState.Processes (source : GatewayState Price) (record : Record Price)
    (book : OrderBook Price) : Prop :=
  (bookSystem Price).step source.book record book ∧ FreshIds (source.lifetime ++ [record]) ∧
    ∀ order, record.operation = .submit order → ∃ count, order.orderId = orderIdAt count

/-- The gateway across lifetimes of the exchange. -/
def gatewaySystem (Price : Type) [PriceArithmetic Price] :
    System (GatewayState Price) (GatewayLabel Price) where
  initial state := state = ⟨[], .empty, false, .initial⟩
  step source label target :=
    match label with
    | .restart => target = ⟨[], .empty, false, source.normalizer⟩
    | .connect => target = { source with connected := true }
    | .disconnect => target = { source with connected := false }
    | .missed record => source.connected = false ∧ source.Processes record record.after ∧
        target = { source with lifetime := source.lifetime ++ [record], book := record.after }
    | .delivered delivery => source.connected = true ∧
        source.Processes delivery.record delivery.record.after ∧
        target =
          { source with
            lifetime := source.lifetime ++ [delivery.record]
            book := delivery.record.after
            normalizer := (source.normalizer.normalize delivery.raw delivery.now).2 }

/-- The labels of a run say which state it reaches. -/
theorem gatewayRun_unique {labels : List (GatewayLabel Price)} {first second : GatewayState Price}
    (left : Run (gatewaySystem Price) labels first)
    (right : Run (gatewaySystem Price) labels second) : first = second := by
  refine left.unique right (fun _ _ one other => one.trans other.symm) ?_
  intro source label one other left right
  cases label with
  | restart => exact left.trans right.symm
  | connect => exact left.trans right.symm
  | disconnect => exact left.trans right.symm
  | missed record => exact left.2.2.trans right.2.2.symm
  | delivered delivery => exact left.2.2.trans right.2.2.symm

/-- Every trade that the gateway reports is attributed to `"?"` or to the node that submitted the
resting order in the current lifetime. -/
def AttributionSound (labels : List (GatewayLabel Price)) : Prop :=
  ∀ front delivery back source, labels = front ++ .delivered delivery :: back →
    Run (gatewaySystem Price) front source →
      ∀ trade ∈ (source.normalizer.wire delivery).trades,
        trade.restingNode = "?" ∨ Submitter source.lifetime trade.resting trade.restingNode

/-- No order comes to rest unseen under an id for which the normalizer holds an entry that names
another node. -/
def NoStaleEntry (state : GatewayState Price) (label : GatewayLabel Price) : Prop :=
  ∀ record order, label = .missed record → record.operation = .submit order →
    record.result.status = .queued ∨ record.result.status = .partialFill →
      ∀ entry, state.normalizer.resting.get order.orderId = some entry → entry.node = order.nodeId

end System

/-! ### Entries keep their nodes -/

theorem RestingMap.node_of_take {resting : RestingMap} {restingId : String} {quantity : Int}
    {orderId : String} {entry : Resting}
    (found : (RestingMap.take resting restingId quantity).get orderId = some entry) :
    ∃ old, resting.get orderId = some old ∧ old.node = entry.node := by
  rw [RestingMap.get_take] at found
  split_ifs at found with same
  · subst same
    obtain ⟨old, isOld, kept⟩ := Option.bind_eq_some_iff.mp found
    split_ifs at kept
    obtain rfl := Option.some.inj kept
    exact ⟨old, isOld, rfl⟩
  · exact ⟨entry, found, rfl⟩

/-- Trades change no entry's node, and are attributed to the node of an entry they found. -/
theorem RestingMap.node_of_normalizeTrades [Zero Price] (node : String)
    (trades : List (RawTrade Price)) (resting : RestingMap) :
    (∀ orderId entry, (RestingMap.normalizeTrades node trades resting).2.get orderId = some entry →
      ∃ old, resting.get orderId = some old ∧ old.node = entry.node) ∧
    ∀ wire ∈ (RestingMap.normalizeTrades node trades resting).1, wire.restingNode = "?" ∨
      ∃ old, resting.get wire.resting = some old ∧ old.node = wire.restingNode := by
  induction trades generalizing resting with
  | nil => exact ⟨fun _ entry found => ⟨entry, found, rfl⟩, fun _ member => nomatch member⟩
  | cons trade rest inductionHypothesis =>
    obtain ⟨entries, wires⟩ := inductionHypothesis
      (RestingMap.take resting (trade.restingOrderId.getD "") (num trade.quantity))
    rw [RestingMap.normalizeTrades]
    constructor
    · intro orderId entry found
      obtain ⟨middle, isMiddle, sameNode⟩ := entries orderId entry found
      obtain ⟨old, isOld, oldNode⟩ := RestingMap.node_of_take isMiddle
      exact ⟨old, isOld, oldNode.trans sameNode⟩
    · intro wire member
      rcases List.mem_cons.mp member with rfl | later
      · rw [RestingMap.attribute]
        cases found : resting.get (trade.restingOrderId.getD "") with
        | none => exact .inl rfl
        | some entry => exact .inr ⟨entry, rfl, rfl⟩
      · refine (wires wire later).imp_right ?_
        rintro ⟨middle, isMiddle, sameNode⟩
        obtain ⟨old, isOld, oldNode⟩ := RestingMap.node_of_take isMiddle
        exact ⟨old, isOld, oldNode.trans sameNode⟩

theorem RestingMap.get_remember {resting : RestingMap} {op : TelemetryOp}
    {status : Option WireStatus} {orderId : String} {remembered : Resting} {other : String}
    {entry : Resting}
    (found : (RestingMap.remember resting op status orderId remembered).get other = some entry) :
    (RestsOnWire op status ∧ other = orderId ∧ entry = remembered) ∨
      ((RestsOnWire op status → other ≠ orderId) ∧ resting.get other = some entry) := by
  rw [RestingMap.remember] at found
  split_ifs at found with rests
  · rw [RestingMap.get_evict] at found
    split_ifs at found
    rw [InsertionMap.get_set, Function.update_apply] at found
    split_ifs at found with own
    · exact .inl ⟨rests, own, (Option.some.inj found).symm⟩
    · exact .inr ⟨fun _ => own, found⟩
  · exact .inr ⟨fun onWire => absurd onWire rests, found⟩

/-! ### The invariant -/

section Attributed

variable [PriceArithmetic Price]

/-- The entries of the ids that rest name the nodes that submitted them in this lifetime. -/
def Attributed (state : GatewayState Price) : Prop :=
  ∀ orderId ∈ state.book.restingIds, ∀ entry, state.normalizer.resting.get orderId = some entry →
    Submitter state.lifetime orderId entry.node

theorem submitter_of_submit {lifetime : List (Record Price)} {record : Record Price}
    {order : Order Price} (isSubmit : record.operation = .submit order) :
    Submitter (lifetime ++ [record]) order.orderId order.nodeId :=
  ⟨order, mem_submitted_append.mpr (.inr isSubmit), rfl, rfl⟩

theorem Attributed.missed {state : GatewayState Price} {record : Record Price}
    (attributed : Attributed state) (processes : state.Processes record record.after)
    (noStale : NoStaleEntry state (.missed record)) :
    Attributed { state with lifetime := state.lifetime ++ [record], book := record.after } := by
  intro orderId member entry found
  rcases (step_ids processes.1).2 orderId member with old | ⟨order, isSubmit, rfl, rests⟩
  · exact (attributed orderId old entry found).later [record]
  · rw [noStale record order rfl isSubmit rests entry found]
    exact submitter_of_submit isSubmit

theorem Attributed.delivered {state : GatewayState Price} {delivery : Delivery Price}
    (attributed : Attributed state)
    (processes : state.Processes delivery.record delivery.record.after) :
    Attributed
      { state with
        lifetime := state.lifetime ++ [delivery.record]
        book := delivery.record.after
        normalizer := (state.normalizer.normalize delivery.raw delivery.now).2 } := by
  intro orderId member entry found
  have kept : orderId ∈ state.book.restingIds → ∀ node,
      (RestingMap.normalizeTrades node delivery.record.rawTrades
        state.normalizer.resting).2.get orderId = some entry →
      Submitter (state.lifetime ++ [delivery.record]) orderId entry.node := by
    intro old node inMap
    obtain ⟨before, isBefore, sameNode⟩ :=
      (RestingMap.node_of_normalizeTrades node _ _).1 orderId entry inMap
    rw [← sameNode]
    exact (attributed orderId old before isBefore).later _
  cases operation : delivery.record.operation with
  | submit order =>
    have map := delivery.resting_submit state.normalizer operation
    replace found : (state.normalizer.feed [delivery]).resting.get orderId = some entry := found
    rw [map] at found
    rcases RestingMap.get_remember found with ⟨_, rfl, rfl⟩ | ⟨other, inMap⟩
    · exact submitter_of_submit operation
    · rcases (step_ids processes.1).2 orderId member with old | ⟨submitted, isSubmit, rfl, rests⟩
      · exact kept old _ inMap
      · rw [operation] at isSubmit
        obtain rfl := Operation.submit.inj isSubmit
        exact absurd rfl (other ((restsOnWire_iff _).mpr rests))
  | cancel cancelledId nodeId =>
    have map := delivery.resting_cancel state.normalizer operation
    replace found : (state.normalizer.feed [delivery]).resting.get orderId = some entry := found
    rw [map] at found
    rcases (step_ids processes.1).2 orderId member with old | ⟨_, isSubmit, _⟩
    · rw [RestingMap.forget] at found
      split_ifs at found
      · rw [InsertionMap.get_delete, Function.update_apply] at found
        split_ifs at found
        exact kept old _ found
      · exact kept old _ found
    · rw [operation] at isSubmit
      cases isSubmit

theorem gatewayRun_attributed {labels : List (GatewayLabel Price)} {state : GatewayState Price}
    (run : Run ((gatewaySystem Price).restrict NoStaleEntry) labels state) : Attributed state := by
  refine run.invariant (fun _ state => Attributed state) ?_ ?_
  · rintro state rfl
    exact fun _ member => nomatch member
  · rintro labels source label target _ attributed ⟨noStale, step⟩
    cases label with
    | restart =>
      obtain rfl := step
      exact fun _ member => nomatch member
    | connect =>
      obtain rfl := step
      exact attributed
    | disconnect =>
      obtain rfl := step
      exact attributed
    | missed record =>
      obtain ⟨_, processes, rfl⟩ := step
      exact attributed.missed processes noStale
    | delivered delivery =>
      obtain ⟨_, processes, rfl⟩ := step
      exact attributed.delivered processes

/-- A trade of a delivered batch is attributed to `"?"` or to the true submitter. -/
theorem Attributed.wire {state : GatewayState Price} {delivery : Delivery Price}
    (attributed : Attributed state)
    (processes : state.Processes delivery.record delivery.record.after) :
    ∀ trade ∈ (state.normalizer.wire delivery).trades,
      trade.restingNode = "?" ∨ Submitter state.lifetime trade.resting trade.restingNode := by
  intro trade member
  obtain ⟨node, trades⟩ := delivery.wire_trades state.normalizer
  rw [trades] at member
  obtain ⟨executed, inTrades, sameId⟩ := normalizeTrades_named node _ _ trade member
  refine ((RestingMap.node_of_normalizeTrades node _ _).2 trade member).imp_right ?_
  rintro ⟨entry, found, sameNode⟩
  rw [← sameNode]
  exact attributed _ (sameId ▸ (step_ids processes.1).1 executed inTrades) entry found

/-- In every run in which no order comes to rest unseen under an id with a stale entry,
attribution is sound. -/
theorem attribution_across_restarts {labels : List (GatewayLabel Price)}
    {state : GatewayState Price}
    (run : Run ((gatewaySystem Price).restrict NoStaleEntry) labels state) :
    AttributionSound labels := by
  rintro front delivery back source rfl before
  obtain ⟨reached, prior, steps⟩ := run.split
  obtain rfl := gatewayRun_unique before prior.of_restrict
  cases steps with
  | cons step _ => exact (gatewayRun_attributed prior).wire step.2.2.1

end Attributed

/-! ### A stale entry -/

namespace Sample

/-- In the second lifetime another node's ask gets the first id. -/
def secondLifeAsk : Record ℚ := submitRecord .empty 1 ⟨.ask, .limit, 101, 5, "ORD-0", "mm-2"⟩

/-- A bid trades with it. -/
def secondLifeBid : Record ℚ :=
  submitRecord secondLifeAsk.after 2 ⟨.bid, .limit, 101, 5, "ORD-1", "mom-1"⟩

/-- The gateway sees the first lifetime's ask rest, misses the second lifetime's, and sees the
trade. -/
def restarted : List (GatewayLabel ℚ) :=
  [.connect, .delivered (delivery 1 firstAsk), .restart, .missed secondLifeAsk, .connect,
    .delivered (delivery 2 secondLifeBid)]

/-- The gateway before the trade. -/
def beforeTrade : GatewayState ℚ :=
  ⟨[secondLifeAsk], secondLifeAsk.after, true, Normalizer.initial.feed [delivery 1 firstAsk]⟩

/-- A submit with a generated id is processed. -/
theorem submit_processes (lifetime : List (Record ℚ)) (book : OrderBook ℚ) (connected : Bool)
    (normalizer : Normalizer ℚ) (timestamp : Nat) (order : Order ℚ) (count : Nat)
    (generated : order.orderId = orderIdAt count)
    (fresh : FreshIds (lifetime ++ [submitRecord book timestamp order])) :
    GatewayState.Processes ⟨lifetime, book, connected, normalizer⟩
      (submitRecord book timestamp order) (submitRecord book timestamp order).after := by
  refine ⟨submitRecord_step _ _ _, fresh, fun other isSubmit => ⟨count, ?_⟩⟩
  rw [← Operation.submit.inj isSubmit, generated]

theorem beforeTrade_run : Run (gatewaySystem ℚ)
    [.connect, .delivered (delivery 1 firstAsk), .restart, .missed secondLifeAsk, .connect]
    beforeTrade := by
  have start : Run (gatewaySystem ℚ) [] ⟨[], .empty, false, .initial⟩ := .start rfl
  have first : Run (gatewaySystem ℚ) [.connect] ⟨[], .empty, true, .initial⟩ := start.next rfl
  have ask : Run (gatewaySystem ℚ) [.connect, .delivered (delivery 1 firstAsk)]
      ⟨[firstAsk], firstAsk.after, true, Normalizer.initial.feed [delivery 1 firstAsk]⟩ :=
    first.next ⟨rfl, submit_processes _ _ _ _ _ _ 0 rfl (by decide), rfl⟩
  have restart : Run (gatewaySystem ℚ) [.connect, .delivered (delivery 1 firstAsk), .restart]
      ⟨[], .empty, false, Normalizer.initial.feed [delivery 1 firstAsk]⟩ := ask.next rfl
  have missed : Run (gatewaySystem ℚ)
      [.connect, .delivered (delivery 1 firstAsk), .restart, .missed secondLifeAsk]
      ⟨[secondLifeAsk], secondLifeAsk.after, false,
        Normalizer.initial.feed [delivery 1 firstAsk]⟩ :=
    restart.next ⟨rfl, submit_processes _ _ _ _ _ _ 0 rfl (by decide), rfl⟩
  exact missed.next rfl

end Sample

/-- A trade of the second lifetime is attributed to a node of the first. -/
theorem stale_entry_attributed : ∃ labels : List (GatewayLabel ℚ),
    (∃ state, Run (gatewaySystem ℚ) labels state) ∧ ¬ AttributionSound labels := by
  refine ⟨Sample.restarted, ⟨_, Sample.beforeTrade_run.next
    ⟨rfl, Sample.submit_processes _ _ _ _ _ _ 1 rfl (by decide), rfl⟩⟩, ?_⟩
  intro sound
  have trades : (Sample.beforeTrade.normalizer.wire
      (Sample.delivery 2 Sample.secondLifeBid)).trades.map
        (fun trade => (trade.resting, trade.restingNode)) = [("ORD-0", "mm-1")] := by
    decide +kernel
  obtain ⟨trade, member, named⟩ := List.mem_map.mp (trades ▸ List.mem_singleton_self _)
  obtain ⟨isResting, isNode⟩ := Prod.mk.inj named
  rcases sound [.connect, .delivered (Sample.delivery 1 Sample.firstAsk), .restart,
    .missed Sample.secondLifeAsk, .connect] _ [] _ rfl Sample.beforeTrade_run trade member with
    unknown | ⟨order, submitted, _, named⟩
  · rw [isNode] at unknown
    exact absurd unknown (by decide)
  · obtain rfl := List.mem_singleton.mp submitted
    rw [isNode] at named
    exact absurd named (by decide)

namespace Sample

/-- In the second lifetime the first maker's ask gets its old id again, unseen; then another node's
ask is seen. -/
def repeatedAsk : Record ℚ := submitRecord .empty 1 ⟨.ask, .limit, 102, 5, "ORD-0", "mm-1"⟩

def seenAsk : Record ℚ := submitRecord repeatedAsk.after 2 ⟨.ask, .limit, 101, 5, "ORD-1", "mm-2"⟩

/-- A bid trades with both. -/
def laterBid : Record ℚ := submitRecord seenAsk.after 3 ⟨.bid, .limit, 102, 7, "ORD-2", "mom-1"⟩

/-- The gateway before that trade. -/
def resumed : GatewayState ℚ :=
  ⟨[repeatedAsk, seenAsk], seenAsk.after, true,
    Normalizer.initial.feed [delivery 1 firstAsk, delivery 2 seenAsk]⟩

/-- The entry that the first lifetime left names the node that submits under its id again. -/
theorem repeatedAsk_notStale : NoStaleEntry
    (⟨[], .empty, false, Normalizer.initial.feed [delivery 1 firstAsk]⟩ : GatewayState ℚ)
    (.missed repeatedAsk) := by
  rintro record order ⟨⟩ isSubmit _ entry found
  obtain rfl := Operation.submit.inj isSubmit
  have named : ((Normalizer.initial.feed [delivery 1 firstAsk]).resting.get "ORD-0").map
      Resting.node = some "mm-1" := by decide +kernel
  have isEntry : (Normalizer.initial.feed [delivery 1 firstAsk]).resting.get "ORD-0" =
      some entry := found
  rw [isEntry] at named
  exact Option.some.inj named

theorem resumed_run : Run ((gatewaySystem ℚ).restrict NoStaleEntry)
    [.connect, .delivered (delivery 1 firstAsk), .restart, .missed repeatedAsk, .connect,
      .delivered (delivery 2 seenAsk)] resumed := by
  have start : Run ((gatewaySystem ℚ).restrict NoStaleEntry) [] ⟨[], .empty, false, .initial⟩ :=
    .start rfl
  have first : Run ((gatewaySystem ℚ).restrict NoStaleEntry) [.connect]
      ⟨[], .empty, true, .initial⟩ := start.next ⟨fun _ _ same => (by cases same), rfl⟩
  have ask : Run ((gatewaySystem ℚ).restrict NoStaleEntry)
      [.connect, .delivered (delivery 1 firstAsk)]
      ⟨[firstAsk], firstAsk.after, true, Normalizer.initial.feed [delivery 1 firstAsk]⟩ :=
    first.next ⟨fun _ _ same => (by cases same), rfl,
      submit_processes _ _ _ _ _ _ 0 rfl (by decide), rfl⟩
  have restart : Run ((gatewaySystem ℚ).restrict NoStaleEntry)
      [.connect, .delivered (delivery 1 firstAsk), .restart]
      ⟨[], .empty, false, Normalizer.initial.feed [delivery 1 firstAsk]⟩ :=
    ask.next ⟨fun _ _ same => (by cases same), rfl⟩
  have missed : Run ((gatewaySystem ℚ).restrict NoStaleEntry)
      [.connect, .delivered (delivery 1 firstAsk), .restart, .missed repeatedAsk]
      ⟨[repeatedAsk], repeatedAsk.after, false,
        Normalizer.initial.feed [delivery 1 firstAsk]⟩ :=
    restart.next ⟨repeatedAsk_notStale, rfl,
      submit_processes _ _ _ _ _ _ 0 rfl (by decide), rfl⟩
  have connected : Run ((gatewaySystem ℚ).restrict NoStaleEntry)
      [.connect, .delivered (delivery 1 firstAsk), .restart, .missed repeatedAsk, .connect]
      ⟨[repeatedAsk], repeatedAsk.after, true,
        Normalizer.initial.feed [delivery 1 firstAsk]⟩ :=
    missed.next ⟨fun _ _ same => (by cases same), rfl⟩
  exact connected.next ⟨fun _ _ same => (by cases same), rfl,
    submit_processes _ _ _ _ _ _ 1 rfl (by decide), rfl⟩

end Sample

/-- After a restart with a missed batch, both fills of a bid are attributed to the nodes of the
second lifetime. -/
theorem attribution_across_restarts_sample :
    AttributionSound [.connect, .delivered (Sample.delivery 1 Sample.firstAsk), .restart,
        .missed Sample.repeatedAsk, .connect, .delivered (Sample.delivery 2 Sample.seenAsk),
        .delivered (Sample.delivery 3 Sample.laterBid)] ∧
      (Sample.resumed.normalizer.wire (Sample.delivery 3 Sample.laterBid)).trades.map
        (fun trade => (trade.resting, trade.restingNode)) =
          [("ORD-1", "mm-2"), ("ORD-0", "mm-1")] := by
  exact ⟨attribution_across_restarts (Sample.resumed_run.next ⟨fun _ _ same => (by cases same),
    rfl, Sample.submit_processes _ _ _ _ _ _ 2 rfl (by decide), rfl⟩), by decide +kernel⟩

end MarketSandbox
