/-
This file follows a batch from the exchange into the normalizer. It computes,
for a submit and for a cancel, what the delivery of the operation's batch does
to the normalizer's map in terms of the operation itself, and how the trades of
a batch draw the map's entries down.
-/

import MarketSandbox.Exchange.Ledger
import MarketSandbox.Gateway.Normalizer

namespace MarketSandbox

variable {Price : Type}

/-! ### Deliveries -/

/-- The delivery of an operation's batch to the gateway, at a reading of the gateway's clock. -/
structure Delivery (Price : Type) [LT Price] where
  record : Record Price
  trace : PipelineTrace
  now : Int

section Decoded

theorem getD_present {Value : Type} [DecidableEq Value] (zero value : Value) :
    (present zero value).getD zero = value := by
  unfold present
  split_ifs with isZero
  · exact isZero.symm
  · rfl

theorem num_presentNumber (value : Int) :
    num (presentNumber value) = SafeInteger.toNumber value := by
  unfold num presentNumber present
  split_ifs with isZero
  · rw [isZero]
    rfl
  · rfl

theorem wireStatus_present (status : OrderStatus) :
    wireStatus (present .unspecified status) = wireStatus (some status) := by
  cases status <;> rfl

/-- The status says on the wire whether the order rests. -/
theorem restsOnWire_iff (status : OrderStatus) :
    RestsOnWire .submit (wireStatus (some status)) ↔
      status = .queued ∨ status = .partialFill := by
  cases status <;> decide

end Decoded

variable [PriceArithmetic Price]

/-- The decoded batch of a delivery. -/
def Delivery.raw (delivery : Delivery Price) : RawBatch Price :=
  (delivery.record.telemetry delivery.trace).toProto.decode

/-- The decoded trades of a record. -/
def Record.rawTrades (record : Record Price) : List (RawTrade Price) :=
  record.trades.map Trade.decode

namespace Normalizer

/-- The normalizer after a sequence of deliveries. -/
def feed (normalizer : Normalizer Price) (deliveries : List (Delivery Price)) : Normalizer Price :=
  deliveries.foldl (fun normalizer delivery => (normalizer.normalize delivery.raw delivery.now).2)
    normalizer

theorem feed_append (normalizer : Normalizer Price) (front back : List (Delivery Price)) :
    normalizer.feed (front ++ back) = (normalizer.feed front).feed back :=
  List.foldl_append

/-- What browsers receive when a batch is delivered after others. -/
def wire (normalizer : Normalizer Price) (delivery : Delivery Price) : WireBatch Price :=
  (normalizer.normalize delivery.raw delivery.now).1

theorem normalize_trades (normalizer : Normalizer Price) (raw : RawBatch Price) (now : Int) :
    (normalizer.normalize raw now).1.trades =
      (RestingMap.normalizeTrades ((raw.order.getD noOrder).nodeId.getD "") (raw.trades.getD [])
        normalizer.resting).1 := by
  unfold normalize
  cases raw.book with
  | none => rfl
  | some book =>
    simp only [Option.map_some]
    split_ifs <;> rfl

theorem normalize_resting (normalizer : Normalizer Price) (raw : RawBatch Price) (now : Int) :
    (normalizer.normalize raw now).2.resting =
      let o := raw.order.getD noOrder
      let op : TelemetryOp := if o.op = some .cancel then .cancel else .submit
      RestingMap.forget
        (RestingMap.remember
          (RestingMap.normalizeTrades (o.nodeId.getD "") (raw.trades.getD []) normalizer.resting).2
          op (wireStatus o.status) (o.orderId.getD "")
          ⟨o.nodeId.getD "", SafeInteger.sub (num o.quantity) (num o.filledQuantity)⟩)
        op (o.cancelSuccessful.getD false) (o.orderId.getD "") := by
  unfold normalize
  cases raw.book with
  | none => rfl
  | some book =>
    simp only [Option.map_some]
    split_ifs <;> rfl

/-- The order that browsers receive. -/
theorem normalize_order (normalizer : Normalizer Price) (raw : RawBatch Price) (now : Int) :
    let o := raw.order.getD noOrder
    (normalizer.normalize raw now).1.op =
        (if o.op = some .cancel then TelemetryOp.cancel else TelemetryOp.submit) ∧
      (normalizer.normalize raw now).1.order =
        { id := o.orderId.getD ""
          node := o.nodeId.getD ""
          side := wireSide o.side
          type := wireType o.orderType
          price := num o.price
          qty := num o.quantity
          status := wireStatus o.status
          filled := num o.filledQuantity
          avg := num o.avgPrice
          reason := o.rejectionReason.getD ""
          cancelOk := o.cancelSuccessful.getD false } := by
  unfold normalize
  cases raw.book with
  | none => exact ⟨rfl, rfl⟩
  | some book =>
    simp only [Option.map_some]
    split_ifs <;> exact ⟨rfl, rfl⟩

end Normalizer

namespace Delivery

variable (delivery : Delivery Price)

theorem raw_trades : delivery.raw.trades.getD [] = delivery.record.rawTrades := by
  have trades : (delivery.record.telemetry delivery.trace).toProto.trades =
      delivery.record.trades := by
    unfold Record.telemetry
    cases delivery.record.operation <;> rfl
  rw [raw, TelemetryBatch.decode, trades, Record.rawTrades]
  cases delivery.record.trades <;> rfl

/-- The map after the delivery of a submit's batch. -/
theorem resting_submit (normalizer : Normalizer Price) {order : Order Price}
    (isSubmit : delivery.record.operation = .submit order) :
    (normalizer.feed [delivery]).resting =
      RestingMap.remember
        (RestingMap.normalizeTrades order.nodeId delivery.record.rawTrades normalizer.resting).2
        .submit (wireStatus (some delivery.record.result.status)) order.orderId
        ⟨order.nodeId, SafeInteger.sub (SafeInteger.toNumber order.quantity)
          (SafeInteger.toNumber delivery.record.result.filledQuantity)⟩ := by
  show (normalizer.normalize delivery.raw delivery.now).2.resting = _
  rw [Normalizer.normalize_resting, raw_trades]
  simp only [raw, TelemetryBatch.decode, Option.getD_some, OrderEvent.decode,
    TelemetryRecord.toProto, Record.telemetry, isSubmit, getD_present, num_presentNumber,
    wireStatus_present, RestingMap.forget]
  rfl

/-- What the size limit deletes at the delivery of a submit's batch. -/
theorem evicts_submit (normalizer : Normalizer Price) {order : Order Price}
    (isSubmit : delivery.record.operation = .submit order) (orderId : String) :
    normalizer.Evicts delivery.raw orderId ↔
      RestsOnWire .submit (wireStatus (some delivery.record.result.status)) ∧
        RestingMap.evicted ((RestingMap.normalizeTrades order.nodeId delivery.record.rawTrades
          normalizer.resting).2.set order.orderId
            ⟨order.nodeId, SafeInteger.sub (SafeInteger.toNumber order.quantity)
              (SafeInteger.toNumber delivery.record.result.filledQuantity)⟩) = some orderId := by
  rw [Normalizer.Evicts, raw_trades]
  simp only [raw, TelemetryBatch.decode, Option.getD_some, OrderEvent.decode,
    TelemetryRecord.toProto, Record.telemetry, isSubmit, getD_present, num_presentNumber,
    wireStatus_present]
  rfl

/-- The map after the delivery of a cancel's batch. -/
theorem resting_cancel (normalizer : Normalizer Price) {orderId nodeId : String}
    (isCancel : delivery.record.operation = .cancel orderId nodeId) :
    (normalizer.feed [delivery]).resting =
      RestingMap.forget
        (RestingMap.normalizeTrades nodeId delivery.record.rawTrades normalizer.resting).2
        .cancel delivery.record.result.cancelSuccessful orderId := by
  show (normalizer.normalize delivery.raw delivery.now).2.resting = _
  rw [Normalizer.normalize_resting, raw_trades]
  simp only [raw, TelemetryBatch.decode, Option.getD_some, OrderEvent.decode,
    TelemetryRecord.toProto, Record.telemetry, isCancel, getD_present, num_presentNumber,
    wireStatus_present]
  rfl

/-- The trades that browsers receive. -/
theorem wire_trades (normalizer : Normalizer Price) : ∃ node,
    (normalizer.wire delivery).trades =
      (RestingMap.normalizeTrades node delivery.record.rawTrades normalizer.resting).1 := by
  refine ⟨(delivery.raw.order.getD Normalizer.noOrder).nodeId.getD "", ?_⟩
  rw [Normalizer.wire, Normalizer.normalize_trades, raw_trades]

end Delivery

/-! ### Trades as browsers receive them -/

/-- What browsers receive of a trade, under the node of its batch. -/
structure Copied (node : String) (trade : Trade Price) (wire : WireTrade Price) : Prop where
  id : wire.id = trade.tradeId
  price : wire.price = trade.price
  qty : wire.qty = SafeInteger.toNumber trade.quantity
  aggressorSide : wire.aggressorSide = (wireSide (some trade.aggressorSide)).getD .bid
  aggressor : wire.aggressor = trade.aggressorOrderId
  aggressorNode : wire.aggressorNode = node
  resting : wire.resting = trade.restingOrderId

theorem wireSide_present (side : OrderSide) :
    wireSide (present .unspecified side) = wireSide (some side) := by
  cases side <;> rfl

/-- Browsers receive every trade of a batch, in order. -/
theorem normalizeTrades_copies (node : String) (trades : List (Trade Price))
    (resting : RestingMap) :
    List.Forall₂ (Copied node) trades
      (RestingMap.normalizeTrades node (trades.map Trade.decode) resting).1 := by
  induction trades generalizing resting with
  | nil => exact .nil
  | cons trade rest inductionHypothesis =>
    rw [List.map_cons, RestingMap.normalizeTrades]
    refine .cons ?_ (inductionHypothesis _)
    exact ⟨getD_present _ _, getD_present _ _, num_presentNumber _,
      congrArg (Option.getD · _) (wireSide_present _), getD_present _ _, rfl, getD_present _ _⟩

/-- The trades that browsers receive with a submit's batch. -/
theorem Delivery.wire_trades_submit (delivery : Delivery Price) (normalizer : Normalizer Price)
    {order : Order Price} (isSubmit : delivery.record.operation = .submit order) :
    (normalizer.wire delivery).trades =
      (RestingMap.normalizeTrades order.nodeId delivery.record.rawTrades normalizer.resting).1 := by
  have node : (delivery.raw.order.getD Normalizer.noOrder).nodeId.getD "" = order.nodeId := by
    simp only [raw, TelemetryBatch.decode, Option.getD_some, OrderEvent.decode,
      TelemetryRecord.toProto, Record.telemetry, isSubmit, getD_present]
  rw [Normalizer.wire, Normalizer.normalize_trades, raw_trades, node]

/-- The order that browsers receive with a submit's batch. -/
structure SubmitOnWire (record : Record Price) (order : Order Price) (wire : WireBatch Price) :
    Prop where
  op : wire.op = .submit
  id : wire.order.id = order.orderId
  node : wire.order.node = order.nodeId
  side : wire.order.side = wireSide (some order.side)
  price : wire.order.price = order.price
  qty : wire.order.qty = SafeInteger.toNumber order.quantity
  status : wire.order.status = wireStatus (some record.result.status)
  filled : wire.order.filled = SafeInteger.toNumber record.result.filledQuantity

theorem Delivery.raw_order_submit (delivery : Delivery Price) {order : Order Price}
    (isSubmit : delivery.record.operation = .submit order) :
    delivery.raw.order.getD Normalizer.noOrder =
      OrderEvent.decode
        { op := .submit
          orderId := order.orderId
          nodeId := order.nodeId
          side := order.side
          orderType := order.orderType
          price := order.price
          quantity := order.quantity
          status := delivery.record.result.status
          filledQuantity := delivery.record.result.filledQuantity
          avgPrice := delivery.record.result.avgPrice
          rejectionReason := delivery.record.result.rejectionReason
          cancelSuccessful := delivery.record.result.cancelSuccessful } := by
  simp only [raw, TelemetryBatch.decode, Option.getD_some, TelemetryRecord.toProto,
    Record.telemetry, isSubmit]
  rfl

theorem Delivery.raw_order_cancel (delivery : Delivery Price) {orderId nodeId : String}
    (isCancel : delivery.record.operation = .cancel orderId nodeId) :
    delivery.raw.order.getD Normalizer.noOrder =
      OrderEvent.decode
        { op := .cancel
          orderId := orderId
          nodeId := nodeId
          side := .unspecified
          orderType := .unspecified
          price := 0
          quantity := 0
          status := delivery.record.result.status
          filledQuantity := delivery.record.result.filledQuantity
          avgPrice := delivery.record.result.avgPrice
          rejectionReason := delivery.record.result.rejectionReason
          cancelSuccessful := delivery.record.result.cancelSuccessful } := by
  simp only [raw, TelemetryBatch.decode, Option.getD_some, TelemetryRecord.toProto,
    Record.telemetry, isCancel]
  rfl

theorem Delivery.submit_on_wire (delivery : Delivery Price) (normalizer : Normalizer Price)
    {order : Order Price} (isSubmit : delivery.record.operation = .submit order) :
    SubmitOnWire delivery.record order (normalizer.wire delivery) := by
  obtain ⟨op, received⟩ := normalizer.normalize_order delivery.raw delivery.now
  rw [delivery.raw_order_submit isSubmit] at op received
  constructor
  · exact op
  all_goals rw [Normalizer.wire, received]
  · exact getD_present _ _
  · exact getD_present _ _
  · exact wireSide_present _
  · exact getD_present _ _
  · exact num_presentNumber _
  · exact wireStatus_present _
  · exact num_presentNumber _

/-- The cancel that browsers receive with a cancel's batch. -/
theorem Delivery.cancel_on_wire (delivery : Delivery Price) (normalizer : Normalizer Price)
    {orderId nodeId : String} (isCancel : delivery.record.operation = .cancel orderId nodeId) :
    (normalizer.wire delivery).op = .cancel ∧
      (normalizer.wire delivery).order.id = orderId ∧
      (normalizer.wire delivery).order.node = nodeId ∧
      (normalizer.wire delivery).order.cancelOk = delivery.record.result.cancelSuccessful := by
  obtain ⟨op, received⟩ := normalizer.normalize_order delivery.raw delivery.now
  rw [delivery.raw_order_cancel isCancel] at op received
  refine ⟨op, ?_⟩
  rw [Normalizer.wire, received]
  exact ⟨getD_present _ _, getD_present _ _, getD_present _ _⟩

/-- The delivery of a record of the short run. -/
def Sample.delivery (position : Nat) (record : Record ℚ) : Delivery ℚ :=
  ⟨record, ⟨position, 0, 0, 0, 0, 0, 0⟩, position⟩

end MarketSandbox
