/-
This file models the gateway's side of the telemetry stream: the object that
the gateway's protobuf loader makes of a batch, in which fields of value zero
are absent, and the `Normalizer`, which turns such objects into what browsers
receive and keeps a map of the resting orders to say whose order a trade hit.
Numbers are double-precision, so a difference of quantities is rounded.
-/

import MarketSandbox.Exchange.Telemetry
import MarketSandbox.Library.InsertionMap
import MarketSandbox.Library.SafeInteger

namespace MarketSandbox

variable {Price : Type}

/-! ### Decoded batches -/

/-- A decoded trade; `none` is `undefined`. -/
structure RawTrade (Price : Type) where
  tradeId : Option String
  price : Option Price
  quantity : Option Int
  aggressorSide : Option OrderSide
  aggressorOrderId : Option String
  restingOrderId : Option String

/-- A decoded order event. -/
structure RawOrder (Price : Type) where
  op : Option TelemetryOp
  orderId : Option String
  nodeId : Option String
  side : Option OrderSide
  orderType : Option OrderType
  price : Option Price
  quantity : Option Int
  status : Option OrderStatus
  filledQuantity : Option Int
  avgPrice : Option Price
  rejectionReason : Option String
  cancelSuccessful : Option Bool

/-- A decoded pipeline trace. -/
structure RawTrace where
  seq : Option Int
  tRpcIn : Option Int
  tEnqueue : Option Int
  tDequeue : Option Int
  tMatchDone : Option Int
  tPromiseSet : Option Int
  tPublish : Option Int

/-- A decoded top of book, whose prices and quantities have explicit presence. -/
structure RawTop (Price : Type) where
  bidPrice : Option Price
  bidQuantity : Option Int
  askPrice : Option Price
  askQuantity : Option Int

/-- A decoded book level. -/
structure RawLevel (Price : Type) where
  price : Option Price
  quantity : Option Int
  orders : Option Int

/-- A decoded book snapshot. -/
structure RawBook (Price : Type) where
  bids : Option (List (RawLevel Price))
  asks : Option (List (RawLevel Price))

/-- A decoded batch. -/
structure RawBatch (Price : Type) where
  timestamp : Option Int
  order : Option (RawOrder Price)
  trace : Option RawTrace
  trades : Option (List (RawTrade Price))
  topOfBook : Option (RawTop Price)
  book : Option (RawBook Price)

/-- A field that is absent when it has its zero value. -/
def present {Value : Type} [DecidableEq Value] (zero value : Value) : Option Value :=
  if value = zero then none else some value

/-- A 64-bit field, decoded to a number. -/
def presentNumber (value : Int) : Option Int :=
  (present 0 value).map SafeInteger.toNumber

section Decode

variable [Zero Price] [DecidableEq Price]

/-- Decode a trade. -/
def Trade.decode (trade : Trade Price) : RawTrade Price where
  tradeId := present "" trade.tradeId
  price := present 0 trade.price
  quantity := presentNumber trade.quantity
  aggressorSide := present .unspecified trade.aggressorSide
  aggressorOrderId := present "" trade.aggressorOrderId
  restingOrderId := present "" trade.restingOrderId

/-- Decode an order event. -/
def OrderEvent.decode (order : OrderEvent Price) : RawOrder Price where
  op := some order.op
  orderId := present "" order.orderId
  nodeId := present "" order.nodeId
  side := present .unspecified order.side
  orderType := present .unspecified order.orderType
  price := present 0 order.price
  quantity := presentNumber order.quantity
  status := present .unspecified order.status
  filledQuantity := presentNumber order.filledQuantity
  avgPrice := present 0 order.avgPrice
  rejectionReason := present "" order.rejectionReason
  cancelSuccessful := present false order.cancelSuccessful

/-- Decode a pipeline trace. -/
def PipelineTrace.decode (trace : PipelineTrace) : RawTrace where
  seq := presentNumber trace.seq
  tRpcIn := presentNumber trace.tRpcIn
  tEnqueue := presentNumber trace.tEnqueue
  tDequeue := presentNumber trace.tDequeue
  tMatchDone := presentNumber trace.tMatchDone
  tPromiseSet := presentNumber trace.tPromiseSet
  tPublish := presentNumber trace.tPublish

/-- Decode a side of the book snapshot. -/
def decodeLevels (levels : List (DepthLevel Price)) : Option (List (RawLevel Price)) :=
  if levels.isEmpty then none
  else some (levels.map fun level =>
    ⟨present 0 level.price, presentNumber level.quantity, presentNumber level.orders⟩)

/-- Decode a batch. -/
def TelemetryBatch.decode (batch : TelemetryBatch Price) : RawBatch Price where
  timestamp := presentNumber batch.timestamp
  order := some batch.order.decode
  trace := some batch.trace.decode
  trades := if batch.trades.isEmpty then none else some (batch.trades.map Trade.decode)
  topOfBook := batch.topOfBook.map fun top =>
    { bidPrice := top.bidPrice
      bidQuantity := top.bidQuantity.map SafeInteger.toNumber
      askPrice := top.askPrice
      askQuantity := top.askQuantity.map SafeInteger.toNumber }
  book := some ⟨decodeLevels batch.book.bids, decodeLevels batch.book.asks⟩

end Decode

/-! ### What browsers receive -/

/-- `WireTrade`. -/
structure WireTrade (Price : Type) where
  id : String
  price : Price
  qty : Int
  aggressorSide : BookSide
  aggressor : String
  aggressorNode : String
  resting : String
  restingNode : String

/-- `WireBook`. -/
structure WireBook (Price : Type) where
  bids : List (Price × Int × Int)
  asks : List (Price × Int × Int)

/-- The order types on the wire. -/
inductive WireType
  | market
  | limit

/-- The order statuses on the wire. -/
inductive WireStatus
  | filled
  | partialFill
  | queued
  | rejected
  deriving DecidableEq

/-- The `order` of a `WireBatch`; `none` is the empty string. -/
structure WireOrder (Price : Type) where
  id : String
  node : String
  side : Option BookSide
  type : Option WireType
  price : Price
  qty : Int
  status : Option WireStatus
  filled : Int
  avg : Price
  reason : String
  cancelOk : Bool

/-- The `trace` of a `WireBatch`. -/
structure WireTrace where
  enqueue : Int
  dequeue : Int
  matchDone : Int
  promiseSet : Int
  publish : Int

/-- The `tob` of a `WireBatch`. -/
structure WireTop (Price : Type) where
  bid : Option Price
  bidQty : Int
  ask : Option Price
  askQty : Int

/-- `WireBatch`. -/
structure WireBatch (Price : Type) where
  t : String
  atTime : Int
  seq : Int
  op : TelemetryOp
  order : WireOrder Price
  trace : WireTrace
  trades : List (WireTrade Price)
  tob : Option (WireTop Price)
  book : Option (WireBook Price)

/-- `SIDE`. -/
def wireSide : Option OrderSide → Option BookSide
  | some .bid => some .bid
  | some .ask => some .ask
  | _ => none

/-- `TYPE`. -/
def wireType : Option OrderType → Option WireType
  | some .market => some .market
  | some .limit => some .limit
  | _ => none

/-- `STATUS`. -/
def wireStatus : Option OrderStatus → Option WireStatus
  | some .filled => some .filled
  | some .partialFill => some .partialFill
  | some .queued => some .queued
  | some .rejected => some .rejected
  | _ => none

/-- `num`. -/
def num {Value : Type} [Zero Value] (value : Option Value) : Value := value.getD 0

/-! ### The map of resting orders -/

/-- `Resting`. -/
structure Resting where
  node : String
  remaining : Int
  deriving DecidableEq

/-- The map `Normalizer.resting`. -/
abbrev RestingMap : Type := InsertionMap String Resting

/-- The node a trade's resting order is attributed to. -/
def RestingMap.attribute (resting : RestingMap) (restingId : String) : String :=
  ((resting.get restingId).map Resting.node).getD "?"

/-- Take a traded quantity from an entry, and forget the entry when nothing remains. -/
def RestingMap.take (resting : RestingMap) (restingId : String) (quantity : Int) : RestingMap :=
  match resting.get restingId with
  | none => resting
  | some entry =>
    let remaining := SafeInteger.sub entry.remaining quantity
    let taken := resting.set restingId { entry with remaining := remaining }
    if remaining ≤ 0 then taken.delete restingId else taken

/-- The key that the size limit deletes. -/
def RestingMap.evicted (resting : RestingMap) : Option String :=
  if resting.size > 50000 then resting.firstKey else none

/-- Enforce the size limit. -/
def RestingMap.evict (resting : RestingMap) : RestingMap :=
  match resting.evicted with
  | some first => resting.delete first
  | none => resting

/-- The map after the trades of a batch, and the trades as browsers receive them. -/
def RestingMap.normalizeTrades [Zero Price] (node : String) :
    List (RawTrade Price) → RestingMap → List (WireTrade Price) × RestingMap
  | [], resting => ([], resting)
  | trade :: rest, resting =>
    let restingId := trade.restingOrderId.getD ""
    let wire : WireTrade Price :=
      { id := trade.tradeId.getD ""
        price := num trade.price
        qty := num trade.quantity
        aggressorSide := (wireSide trade.aggressorSide).getD .bid
        aggressor := trade.aggressorOrderId.getD ""
        aggressorNode := node
        resting := restingId
        restingNode := RestingMap.attribute resting restingId }
    let later := normalizeTrades node rest (RestingMap.take resting restingId (num trade.quantity))
    (wire :: later.1, later.2)

/-- Whether a batch's order has come to rest. -/
def RestsOnWire (op : TelemetryOp) (status : Option WireStatus) : Prop :=
  op ≠ .cancel ∧ (status = some .queued ∨ status = some .partialFill)

instance (op : TelemetryOp) (status : Option WireStatus) : Decidable (RestsOnWire op status) :=
  inferInstanceAs (Decidable (_ ∧ _))

/-- The map with a batch's order when it has come to rest, within the size limit. -/
def RestingMap.remember (resting : RestingMap) (op : TelemetryOp) (status : Option WireStatus)
    (orderId : String) (entry : Resting) : RestingMap :=
  if RestsOnWire op status then RestingMap.evict (resting.set orderId entry) else resting

/-- The map without a batch's order when it has been cancelled. -/
def RestingMap.forget (resting : RestingMap) (op : TelemetryOp) (cancelOk : Bool)
    (orderId : String) : RestingMap :=
  if op = .cancel ∧ cancelOk then resting.delete orderId else resting

/-! ### The normalizer -/

/-- `Normalizer`. -/
structure Normalizer (Price : Type) where
  resting : RestingMap
  lastBookAt : Int
  pendingBook : Option (WireBook Price)

namespace Normalizer

/-- A new normalizer. -/
def initial : Normalizer Price := ⟨.empty, 0, none⟩

/-- `flushBook`. -/
def flushBook (normalizer : Normalizer Price) : Option (WireBook Price) × Normalizer Price :=
  (normalizer.pendingBook, { normalizer with pendingBook := none })

/-- An empty `raw.order`. -/
def noOrder : RawOrder Price :=
  ⟨none, none, none, none, none, none, none, none, none, none, none, none⟩

/-- An empty `raw.trace`. -/
def noTrace : RawTrace := ⟨none, none, none, none, none, none, none⟩

/-- A level of the book on the wire. -/
def wireLevel [Zero Price] (level : RawLevel Price) : Price × Int × Int :=
  (num level.price, num level.quantity, num level.orders)

/-- `normalize`. -/
def normalize [Zero Price] (normalizer : Normalizer Price) (raw : RawBatch Price) (now : Int) :
    WireBatch Price × Normalizer Price :=
  let o := raw.order.getD noOrder
  let tr := raw.trace.getD noTrace
  let op : TelemetryOp := if o.op = some .cancel then .cancel else .submit
  let orderId := o.orderId.getD ""
  let node := o.nodeId.getD ""
  let status := wireStatus o.status
  let qty := num o.quantity
  let filled := num o.filledQuantity
  let cancelOk := o.cancelSuccessful.getD false
  let traded := RestingMap.normalizeTrades node (raw.trades.getD []) normalizer.resting
  let remembered := RestingMap.remember traded.2 op status orderId
    ⟨node, SafeInteger.sub qty filled⟩
  let resting := RestingMap.forget remembered op cancelOk orderId
  let rpcIn := num tr.tRpcIn
  let rel := fun value : Option Int => max 0 (SafeInteger.sub (num value) rpcIn)
  let tob : Option (WireTop Price) := raw.topOfBook.map fun top =>
    { bid := top.bidPrice
      bidQty := num top.bidQuantity
      ask := top.askPrice
      askQty := num top.askQuantity }
  let book : Option (WireBook Price) := raw.book.map fun book =>
    ⟨(book.bids.getD []).map wireLevel, (book.asks.getD []).map wireLevel⟩
  let sendBook := traded.1 ≠ [] ∨ SafeInteger.sub now normalizer.lastBookAt ≥ 33
  let batch : WireBatch Price :=
    { t := "batch"
      atTime := num raw.timestamp
      seq := num tr.seq
      op := op
      order :=
        { id := orderId
          node := node
          side := wireSide o.side
          type := wireType o.orderType
          price := num o.price
          qty := qty
          status := status
          filled := filled
          avg := num o.avgPrice
          reason := o.rejectionReason.getD ""
          cancelOk := cancelOk }
      trace :=
        { enqueue := rel tr.tEnqueue
          dequeue := rel tr.tDequeue
          matchDone := rel tr.tMatchDone
          promiseSet := rel tr.tPromiseSet
          publish := rel tr.tPublish }
      trades := traded.1
      tob := tob
      book := none }
  match book with
  | none => (batch, { normalizer with resting := resting })
  | some book =>
    if sendBook then
      ({ batch with book := some book }, ⟨resting, now, none⟩)
    else (batch, ⟨resting, normalizer.lastBookAt, some book⟩)

/-- Normalizing a batch makes the size limit delete a key. -/
def Evicts [Zero Price] (normalizer : Normalizer Price) (raw : RawBatch Price)
    (orderId : String) : Prop :=
  let o := raw.order.getD noOrder
  let op : TelemetryOp := if o.op = some .cancel then .cancel else .submit
  let node := o.nodeId.getD ""
  let traded := RestingMap.normalizeTrades node (raw.trades.getD []) normalizer.resting
  RestsOnWire op (wireStatus o.status) ∧
    RestingMap.evicted (traded.2.set (o.orderId.getD "")
      ⟨node, SafeInteger.sub (num o.quantity) (num o.filledQuantity)⟩) = some orderId

end Normalizer

/-- The book of a decoded batch, as browsers receive it. -/
def RawBatch.wireBook [Zero Price] (raw : RawBatch Price) : Option (WireBook Price) :=
  raw.book.map fun book =>
    ⟨(book.bids.getD []).map Normalizer.wireLevel, (book.asks.getD []).map Normalizer.wireLevel⟩

end MarketSandbox
