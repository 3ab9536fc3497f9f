/-
This file models the telemetry the exchange emits: the record that the engine
makes of an operation it has processed, and the batch message made of it.
-/

import MarketSandbox.Exchange.Run

namespace MarketSandbox

variable {Price : Type}

/-- The sequence number and the clock readings of a telemetry record, `PipelineTrace`. -/
structure PipelineTrace where
  seq : Nat
  tRpcIn : Int
  tEnqueue : Int
  tDequeue : Int
  tMatchDone : Int
  tPromiseSet : Int
  tPublish : Int

/-- `TelemetryRecord`. -/
structure TelemetryRecord (Price : Type) where
  timestamp : Nat
  isCancel : Bool
  orderId : String
  nodeId : String
  side : OrderSide
  orderType : OrderType
  price : Price
  quantity : Int
  result : EngineResult Price
  trace : PipelineTrace
  events : List (MarketEvent Price)
  depth : BookDepth Price

/-- The telemetry record that `MatchingEngine::process` publishes for an operation; the order's
fields keep their defaults in the record of a cancel. -/
def Record.telemetry [PriceOperations Price] (record : Record Price) (trace : PipelineTrace) :
    TelemetryRecord Price :=
  let processed : TelemetryRecord Price :=
    { timestamp := record.timestamp
      isCancel := false
      orderId := ""
      nodeId := ""
      side := .unspecified
      orderType := .unspecified
      price := 0
      quantity := 0
      result := record.result
      trace := trace
      events := record.events
      depth := record.after.depth 10 }
  match record.operation with
  | .submit order =>
    { processed with
      orderId := order.orderId
      nodeId := order.nodeId
      side := order.side
      orderType := order.orderType
      price := order.price
      quantity := order.quantity }
  | .cancel orderId nodeId =>
    { processed with isCancel := true, orderId := orderId, nodeId := nodeId }

@[simp] theorem Record.telemetry_trace [PriceOperations Price] (record : Record Price)
    (trace : PipelineTrace) : (record.telemetry trace).trace = trace := by
  unfold Record.telemetry
  cases record.operation <;> rfl

theorem Record.telemetry_depth [PriceOperations Price] (record : Record Price)
    (trace : PipelineTrace) : (record.telemetry trace).depth = record.after.depth 10 := by
  unfold Record.telemetry
  cases record.operation <;> rfl

/-! ### The batch message -/

/-- `TelemetryOp`, without its zero value, which the exchange never sets. -/
inductive TelemetryOp
  | submit
  | cancel
  deriving DecidableEq

/-- The message `OrderEvent`. -/
structure OrderEvent (Price : Type) where
  op : TelemetryOp
  orderId : String
  nodeId : String
  side : OrderSide
  orderType : OrderType
  price : Price
  quantity : Int
  status : OrderStatus
  filledQuantity : Int
  avgPrice : Price
  rejectionReason : String
  cancelSuccessful : Bool

/-- The message `TelemetryBatch`. -/
structure TelemetryBatch (Price : Type) where
  timestamp : Nat
  order : OrderEvent Price
  trace : PipelineTrace
  trades : List (Trade Price)
  topOfBook : Option (TopOfBook Price)
  book : BookDepth Price

/-- The top of book an event carries. -/
def MarketEvent.topOfBook? : MarketEvent Price → Option (TopOfBook Price)
  | .topOfBook top => some top
  | .monostate | .trade _ => none

/-- `ExchangeServiceImpl::toProto`; the last top of book overwrites the others. -/
def TelemetryRecord.toProto (record : TelemetryRecord Price) : TelemetryBatch Price where
  timestamp := record.timestamp
  order :=
    { op := if record.isCancel then .cancel else .submit
      orderId := record.orderId
      nodeId := record.nodeId
      side := record.side
      orderType := record.orderType
      price := record.price
      quantity := record.quantity
      status := record.result.status
      filledQuantity := record.result.filledQuantity
      avgPrice := record.result.avgPrice
      rejectionReason := record.result.rejectionReason
      cancelSuccessful := record.result.cancelSuccessful }
  trace := record.trace
  trades := record.events.filterMap MarketEvent.trade?
  topOfBook := (record.events.filterMap MarketEvent.topOfBook?).getLast?
  book := record.depth

end MarketSandbox
