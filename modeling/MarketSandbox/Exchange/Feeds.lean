/-
This file compares the two encodings of the market data feed. The protobuf
message has a presence bit for each price and quantity, the Cap'n Proto message
one flag for each side of the book, set from the price. The book only emits
trades and tops of book whose prices and quantities are present together, so a
reader of either message gets the event back, except that Cap'n Proto has no
value for a side without an enumerator.
-/

import MarketSandbox.Exchange.Service

namespace MarketSandbox

variable {Price : Type}

/-! ### Messages -/

/-- `market::Trade`. -/
structure ProtoTrade (Price : Type) where
  tradeId : String
  price : Price
  quantity : Int
  aggressorSide : Int
  aggressorOrderId : String
  restingOrderId : String
  timestamp : Nat

/-- `market::TopOfBook`, whose prices and quantities have explicit presence. -/
structure ProtoTop (Price : Type) where
  bidPrice : Option Price
  bidQuantity : Option Int
  askPrice : Option Price
  askQuantity : Option Int
  timestamp : Nat

/-- `market::MarketDataEvent`. -/
inductive ProtoEvent (Price : Type)
  | notSet
  | trade (message : ProtoTrade Price)
  | topOfBook (message : ProtoTop Price)

/-- `mktfeed::OrderSide`. -/
inductive CapnpSide
  | unspecified
  | bid
  | ask

/-- `mktfeed::Trade`. -/
structure CapnpTrade (Price : Type) where
  tradeId : String
  price : Price
  quantity : Int
  aggressorSide : CapnpSide
  aggressorOrderId : String
  restingOrderId : String
  timestamp : Nat

/-- `mktfeed::TopOfBook`. -/
structure CapnpTop (Price : Type) where
  bidPrice : Price
  bidQuantity : Int
  askPrice : Price
  askQuantity : Int
  timestamp : Nat
  hasBid : Bool
  hasAsk : Bool

/-- `mktfeed::MarketDataEvent`. -/
inductive CapnpEvent (Price : Type)
  | trade (message : CapnpTrade Price)
  | topOfBook (message : CapnpTop Price)

/-! ### Writers -/

/-- `OrderSideDTO::orderSideToProto`. -/
def OrderSide.orderSideToProto : OrderSide → Int
  | .unspecified => 0
  | .bid => 1
  | .ask => 2
  | .unrecognized value => value

/-- `MarketEventDTO::marketEventToProto`. -/
def MarketEvent.marketEventToProto : MarketEvent Price → ProtoEvent Price
  | .monostate => .notSet
  | .trade e => .trade
    { tradeId := e.tradeId
      price := e.price
      quantity := e.quantity
      aggressorSide := e.aggressorSide.orderSideToProto
      aggressorOrderId := e.aggressorOrderId
      restingOrderId := e.restingOrderId
      timestamp := e.timestamp }
  | .topOfBook e => .topOfBook
    { bidPrice := e.bidPrice
      bidQuantity := e.bidQuantity
      askPrice := e.askPrice
      askQuantity := e.askQuantity
      timestamp := e.timestamp }

/-- `sideToCapnp`. -/
def OrderSide.sideToCapnp : OrderSide → CapnpSide
  | .bid => .bid
  | .ask => .ask
  | _ => .unspecified

/-- A trade of a message in which no field is set. -/
def CapnpTrade.unset [Zero Price] : CapnpTrade Price := ⟨"", 0, 0, .unspecified, "", "", 0⟩

/-- A top of book in which no field is set. -/
def CapnpTop.unset [Zero Price] : CapnpTop Price := ⟨0, 0, 0, 0, 0, false, false⟩

/-- `MarketEventCapnp::write` into a new message, whose union starts at its first member. -/
def MarketEvent.write [Zero Price] : MarketEvent Price → CapnpEvent Price
  | .monostate => .trade .unset
  | .trade e => .trade
    { tradeId := e.tradeId
      price := e.price
      quantity := e.quantity
      aggressorSide := e.aggressorSide.sideToCapnp
      aggressorOrderId := e.aggressorOrderId
      restingOrderId := e.restingOrderId
      timestamp := e.timestamp }
  | .topOfBook e =>
    let tob : CapnpTop Price := { (CapnpTop.unset : CapnpTop Price) with
      hasBid := e.bidPrice.isSome
      hasAsk := e.askPrice.isSome
      timestamp := e.timestamp }
    .topOfBook { tob with
      bidPrice := e.bidPrice.getD tob.bidPrice
      bidQuantity := e.bidQuantity.getD tob.bidQuantity
      askPrice := e.askPrice.getD tob.askPrice
      askQuantity := e.askQuantity.getD tob.askQuantity }

/-! ### Readers -/

/-- Read a protobuf event, each field as the message has it. -/
def ProtoEvent.read : ProtoEvent Price → MarketEvent Price
  | .notSet => .monostate
  | .trade t => .trade
    { tradeId := t.tradeId
      price := t.price
      quantity := t.quantity
      aggressorSide := .protoToOrderSide t.aggressorSide
      aggressorOrderId := t.aggressorOrderId
      restingOrderId := t.restingOrderId
      timestamp := t.timestamp }
  | .topOfBook b => .topOfBook
    { bidPrice := b.bidPrice
      bidQuantity := b.bidQuantity
      askPrice := b.askPrice
      askQuantity := b.askQuantity
      timestamp := b.timestamp }

/-- The side of the same name. -/
def CapnpSide.read : CapnpSide → OrderSide
  | .unspecified => .unspecified
  | .bid => .bid
  | .ask => .ask

/-- Read a Cap'n Proto event; `hasBid` and `hasAsk` decide presence. -/
def CapnpEvent.read : CapnpEvent Price → MarketEvent Price
  | .trade t => .trade
    { tradeId := t.tradeId
      price := t.price
      quantity := t.quantity
      aggressorSide := t.aggressorSide.read
      aggressorOrderId := t.aggressorOrderId
      restingOrderId := t.restingOrderId
      timestamp := t.timestamp }
  | .topOfBook b => .topOfBook
    { bidPrice := if b.hasBid then some b.bidPrice else none
      bidQuantity := if b.hasBid then some b.bidQuantity else none
      askPrice := if b.hasAsk then some b.askPrice else none
      askQuantity := if b.hasAsk then some b.askQuantity else none
      timestamp := b.timestamp }

/-! ### Round trips -/

/-- A value of the enumeration's underlying type. -/
def OrderSide.IsValue (side : OrderSide) : Prop := ∃ value, side = .protoToOrderSide value

theorem OrderSide.orderSideToProto_value (value : Int) :
    (OrderSide.protoToOrderSide value).orderSideToProto = value := by
  unfold OrderSide.protoToOrderSide
  split <;> rfl

theorem OrderSide.IsValue.read {side : OrderSide} (isValue : side.IsValue) :
    OrderSide.protoToOrderSide side.orderSideToProto = side := by
  obtain ⟨value, rfl⟩ := isValue
  rw [OrderSide.orderSideToProto_value]

/-- The side that a reader of the Cap'n Proto feed sees. -/
def OrderSide.known : OrderSide → OrderSide
  | .unrecognized _ => .unspecified
  | side => side

theorem OrderSide.read_sideToCapnp (side : OrderSide) : side.sideToCapnp.read = side.known := by
  cases side <;> rfl

/-- An event with the side that a reader of the Cap'n Proto feed sees. -/
def MarketEvent.knownSide : MarketEvent Price → MarketEvent Price
  | .trade e => .trade { e with aggressorSide := e.aggressorSide.known }
  | event => event

/-- An event that both messages can carry: it is not empty, its side is a value, and on each
side of the book the price and the quantity are present together. -/
inductive MarketEvent.Carried : MarketEvent Price → Prop
  | trade (executed : Trade Price) (isValue : executed.aggressorSide.IsValue) :
    Carried (.trade executed)
  | topOfBook (top : TopOfBook Price) (bid : top.bidPrice.isSome = top.bidQuantity.isSome)
    (ask : top.askPrice.isSome = top.askQuantity.isSome) : Carried (.topOfBook top)

theorem MarketEvent.Carried.proto {event : MarketEvent Price} (carried : event.Carried) :
    event.marketEventToProto.read = event := by
  cases carried with
  | trade executed isValue =>
    rw [marketEventToProto, ProtoEvent.read, isValue.read]
  | topOfBook top _ _ => rfl

/-- A value that is present exactly when a flag is set is read back. -/
theorem read_flagged {Value : Type} (default : Value) (value : Option Value) {flag : Bool}
    (same : flag = value.isSome) : (if flag then some (value.getD default) else none) = value := by
  subst same
  cases value <;> rfl

theorem MarketEvent.Carried.capnp [Zero Price] {event : MarketEvent Price}
    (carried : event.Carried) : event.write.read = event.knownSide := by
  cases carried with
  | trade executed isValue =>
    rw [write, CapnpEvent.read, OrderSide.read_sideToCapnp, knownSide]
  | topOfBook top bid ask =>
    simp only [write, CapnpEvent.read, read_flagged _ _ bid, read_flagged _ _ ask,
      read_flagged _ _ rfl, knownSide]

/-! ### What the book emits -/

section Emits

variable [PriceOperations Price]

/-- An event that an order's submit appends while it matches: a trade with the order's side. -/
def TradeOf (order : Order Price) (event : MarketEvent Price) : Prop :=
  ∃ executed : Trade Price, event = .trade executed ∧ executed.aggressorSide = order.side

namespace OrderBook

/-- The inner loop appends trades of its order only, whatever the level holds. -/
theorem matchLevel_emits (order : Order Price) (timestamp : Nat) (levelPrice : Price)
    (nodes : List (RestingNode Price)) (state : MatchState Price)
    (emitted : ∀ event ∈ state.events, TradeOf order event) :
    ∀ event ∈ (matchLevel order timestamp levelPrice nodes state).2.events,
      TradeOf order event := by
  induction nodes generalizing state with
  | nil => exact emitted
  | cons node rest inductionHypothesis =>
    have traded : ∀ event ∈ (state.trade order timestamp levelPrice node).events,
        TradeOf order event := by
      intro event member
      rcases List.mem_append.mp member with old | new
      · exact emitted event old
      · obtain rfl := List.mem_singleton.mp new
        exact ⟨_, rfl, rfl⟩
    by_cases wanting : state.filledQty < order.quantity
    · by_cases emptied : node.order.quantity - state.tradeQty order node = 0
      · rw [matchLevel_fills _ _ _ _ _ _ wanting emptied]
        exact inductionHypothesis _ traded
      · rw [matchLevel_reduces _ _ _ _ _ _ wanting emptied]
        exact inductionHypothesis _ traded
    · rw [matchLevel_stops _ _ _ _ _ _ wanting]
      exact emitted

/-- So does the outer loop. -/
theorem matchLevels_emits (side : BookSide) (order : Order Price) (timestamp : Nat)
    (entries : List (Price × List (RestingNode Price))) (state : MatchState Price)
    (emitted : ∀ event ∈ state.events, TradeOf order event) :
    ∀ event ∈ (matchLevels side order timestamp entries state).2.events, TradeOf order event := by
  induction entries generalizing state with
  | nil => exact emitted
  | cons entry rest inductionHypothesis =>
    obtain ⟨levelPrice, level⟩ := entry
    have later := inductionHypothesis _
      (matchLevel_emits order timestamp levelPrice level state emitted)
    rw [matchLevels]
    split_ifs
    · exact emitted
    · simp only
      split_ifs
      · exact later
      · exact later
    · exact emitted

/-- An order's submit ends with the top of some book. -/
theorem conclude_emits (book : OrderBook Price) (side : BookSide) (order : Order Price)
    (timestamp : Nat) (state : MatchState Price) :
    ∃ after : OrderBook Price, (book.conclude side order timestamp state).events =
      state.events ++ [MarketEvent.topOfBook (after.currentTopOfBook timestamp)] := by
  unfold conclude
  by_cases market : order.orderType = .market
  · rw [if_pos market]
    exact ⟨book, rfl⟩
  · rw [if_neg market]
    by_cases full : state.filledQty = order.quantity
    · rw [if_pos full]
      exact ⟨book, rfl⟩
    · rw [if_neg full]
      exact ⟨_, rfl⟩

/-- Both messages can carry a top of a book. -/
theorem carried_top (book : OrderBook Price) (timestamp : Nat) :
    (MarketEvent.topOfBook (book.currentTopOfBook timestamp)).Carried :=
  .topOfBook _ (by simp [currentTopOfBook]) (by simp [currentTopOfBook])

theorem carried_submit (book : OrderBook Price) (order : Order Price) (timestamp : Nat)
    (isValue : order.side.IsValue) :
    ∀ event ∈ (book.submit order timestamp).events, event.Carried := by
  intro event member
  obtain ⟨after, events⟩ := conclude_emits
    (book.matched (BookSide.ofOrder order.side) order timestamp) (BookSide.ofOrder order.side) order
    timestamp (matchLevels (BookSide.ofOrder order.side) order timestamp
      (book.levels (BookSide.ofOrder order.side).opposite).entries book.startMatch).2
  rw [submit_eq, submitTo, events] at member
  rcases List.mem_append.mp member with inTrades | isTop
  · obtain ⟨executed, rfl, side⟩ := matchLevels_emits _ order timestamp _ book.startMatch
      (fun _ none => absurd none List.not_mem_nil) event inTrades
    exact .trade executed (side ▸ isValue)
  · rw [List.mem_singleton.mp isTop]
    exact after.carried_top timestamp

theorem carried_cancel {book : OrderBook Price} {orderId : String} {timestamp : Nat}
    {outcome : Outcome Price} (cancelled : book.cancel orderId timestamp = some outcome) :
    ∀ event ∈ outcome.events, event.Carried := by
  unfold cancel at cancelled
  cases located : book.orderIndex orderId with
  | none =>
    rw [located] at cancelled
    obtain rfl := Option.some.inj cancelled
    exact fun _ member => nomatch member
  | some location =>
    rw [located] at cancelled
    simp only [Option.bind_eq_bind, Option.bind_eq_some_iff] at cancelled
    obtain ⟨erased, _, isOutcome⟩ := cancelled
    obtain rfl := Option.some.inj isOutcome
    intro event member
    rw [List.mem_singleton.mp member]
    exact carried_top _ timestamp

end OrderBook

/-- Whatever a step of the book emits, both messages can carry it. -/
theorem step_carried {source target : OrderBook Price} {record : Record Price}
    (step : (bookSystem Price).step source record target)
    (isValue : ∀ order, record.operation = .submit order → order.side.IsValue) :
    ∀ event ∈ record.events, event.Carried := by
  obtain ⟨_, _, performed⟩ := step
  cases operation : record.operation with
  | submit order =>
    rw [operation] at performed
    have carried := source.carried_submit order record.timestamp (isValue order operation)
    rwa [show source.submit order record.timestamp = _ from Option.some.inj performed] at carried
  | cancel orderId nodeId =>
    rw [operation] at performed
    exact OrderBook.carried_cancel performed

end Emits

/-! ### Every event of a run -/

variable [PriceOperations Price]

namespace Sample

/-- A bid rests, and an order whose side has no enumerator sells to it. -/
def straySideRequests : List (Request ℚ) :=
  [.submitOrder ⟨"mm-1", 1, 2, 100, 5⟩ "ORD-0", .submitOrder ⟨"mom-1", 3, 2, 100, 5⟩ "ORD-1"]

def quotedBid : Record ℚ := submitRecord .empty 1 ⟨.bid, .limit, 100, 5, "ORD-0", "mm-1"⟩

def straySide : Record ℚ :=
  submitRecord quotedBid.after 2 ⟨.unrecognized 3, .limit, 100, 5, "ORD-1", "mom-1"⟩

theorem straySideRun : BookRun [quotedBid, straySide] straySide.after :=
  ((Transition.Run.start rfl).next (submitRecord_step _ _ _)).next (submitRecord_step _ _ _)

def straySideTrade : MarketEvent ℚ :=
  .trade ⟨"TRD-0", 100, 5, .unrecognized 3, "ORD-1", "ORD-0", 2⟩

end Sample

/-- A reader of the protobuf feed gets back every event that a run emits, and a reader of the
Cap'n Proto feed gets it back with a side without an enumerator as `SIDE_UNSPECIFIED`. -/
theorem feeds_carry_events {records : List (Record Price)} {book : OrderBook Price}
    (run : BookRun records book) (sides : ∀ order ∈ submitted records, order.side.IsValue)
    {record : Record Price} (member : record ∈ records) {event : MarketEvent Price}
    (emitted : event ∈ record.events) :
    event ≠ .monostate ∧ event.marketEventToProto.read = event ∧
      event.write.read = event.knownSide ∧
      ((∀ executed value, event = .trade executed →
        executed.aggressorSide ≠ .unrecognized value) → event.write.read = event) := by
  obtain ⟨_, _, _, _, step⟩ := bookRun_split_of_mem run member
  have carried := step_carried step (fun order isSubmit => sides order
    (List.mem_filterMap.mpr ⟨record, member, by rw [isSubmit]; rfl⟩)) event emitted
  refine ⟨?_, carried.proto, carried.capnp, fun enumerated => ?_⟩
  · rintro rfl
    cases carried
  · rw [carried.capnp]
    cases carried with
    | trade executed _ =>
      have known : executed.aggressorSide.known = executed.aggressorSide := by
        cases side : executed.aggressorSide with
        | unrecognized value => exact absurd side (enumerated executed value rfl)
        | _ => rfl
      rw [MarketEvent.knownSide, known]
    | topOfBook _ _ _ => rfl

theorem feeds_carry_events_sample :
    (MarketEvent.write (.trade ⟨"TRD-0", (100 : ℚ), 5, .bid, "ORD-2", "ORD-1", 3⟩)).read =
      .trade ⟨"TRD-0", 100, 5, .bid, "ORD-2", "ORD-1", 3⟩ := by
  have sides : ∀ order ∈ submitted Sample.records, order.side.IsValue := by
    intro order member
    have known : ∀ order ∈ submitted Sample.records, order.side = .bid ∨ order.side = .ask := by
      decide
    rcases known order member with isBid | isAsk
    · exact ⟨1, isBid⟩
    · exact ⟨2, isAsk⟩
  refine (feeds_carry_events Sample.run sides
    (show Sample.sweep ∈ Sample.records by simp [Sample.records]) (by decide)).2.2.2 ?_
  intro executed value isTrade
  obtain rfl := MarketEvent.trade.inj isTrade
  exact fun none => nomatch none

/-- A trade whose aggressor's side is 3 is read from the Cap'n Proto feed without a side. -/
theorem stray_side_lost :
    BookRun [Sample.quotedBid, Sample.straySide] Sample.straySide.after ∧
      [Sample.quotedBid, Sample.straySide].map Record.operation =
        Sample.straySideRequests.map Request.payload ∧
      Sample.straySideTrade ∈ Sample.straySide.events ∧
      Sample.straySideTrade.marketEventToProto.read = Sample.straySideTrade ∧
      Sample.straySideTrade.write.read ≠ Sample.straySideTrade := by
  exact ⟨Sample.straySideRun, rfl, by decide, rfl, by decide⟩

end MarketSandbox
