/-
This file models the market maker: what it keeps of the market data, when a tick
requotes, and the requote's four calls to the exchange. A requote cancels the
two orders whose ids are remembered, submits two new ones and remembers those
that came to rest; what the cancels return is ignored.
-/

import MarketSandbox.Exchange.Service
import Mathlib.Algebra.Order.Group.Unbundled.Abs

namespace MarketSandbox

variable {Price : Type}

/-! ### The client -/

/-- How a call ends: with the response to it, or with a status that is not OK and its message. -/
inductive RpcOutcome (Response : Type)
  | answered (response : Response)
  | failed (message : String)

/-- `SubmitResult`. -/
structure SubmitResult (Price : Type) where
  status : OrderStatus
  orderId : String
  quantity : Int
  avgPrice : Price
  timestamp : Nat
  rejectionReason : String

/-- `ExchangeClient::submitOrder`; the handler's response carries the engine's result. -/
def ExchangeClient.submitOrder [Zero Price] :
    RpcOutcome (EngineResult Price) → SubmitResult Price
  | .answered result =>
    ⟨result.status, result.orderId, result.filledQuantity, result.avgPrice, result.timestamp,
      result.rejectionReason⟩
  | .failed message => ⟨.unspecified, "", 0, 0, 0, message⟩

/-! ### The strategy -/

/-- The parameters of `MarketMakerStrategy`, and the node id of its client. -/
structure MakerParams (Price : Type) where
  nodeId : String
  spread : Price
  size : Int
  requoteThresholdPct : Price
  startPrice : Price

/-- What changes of a `MarketMakerStrategy`. -/
structure MarketMaker (Price : Type) where
  lastTradePrice : Option Price
  lastBid : Option Price
  lastAsk : Option Price
  bidOrderId : String
  askOrderId : String
  quotedMid : Price
  hasQuoted : Bool

/-- The id that a submit's result leaves to remember. -/
def SubmitResult.quoteId (result : SubmitResult Price) : String :=
  if result.status = .queued ∨ result.status = .partialFill then result.orderId else ""

/-- `onMarketData`. -/
def MarketMaker.onMarketData (maker : MarketMaker Price) : MarketEvent Price → MarketMaker Price
  | .trade executed => { maker with lastTradePrice := some executed.price }
  | .topOfBook top => { maker with lastBid := top.bidPrice, lastAsk := top.askPrice }
  | .monostate => maker

/-- Where `onTick` stands: not called, before one of the four calls of `requote` with what it has
read and received so far, or before what it has received is stored. -/
inductive MakerPc (Price : Type)
  | idle
  | cancelBid (mid : Price) (oldBid oldAsk : String)
  | cancelAsk (mid : Price) (oldAsk : String)
  | submitBid (mid : Price)
  | submitAsk (mid : Price) (bidResult : SubmitResult Price)
  | store (mid : Price) (bidResult askResult : SubmitResult Price)

section Strategy

variable [Field Price] [LinearOrder Price] (params : MakerParams Price)

/-- A new strategy. -/
def MarketMaker.initial : MarketMaker Price := ⟨none, none, none, "", "", 0, false⟩

/-- `computeMid`. -/
def MarketMaker.computeMid (maker : MarketMaker Price) : Price :=
  match maker.lastBid, maker.lastAsk with
  | some bid, some ask => (bid + ask) / 2
  | _, _ => maker.lastTradePrice.getD params.startPrice

/-- `needsQuote` at a mid. -/
def MarketMaker.NeedsQuote (maker : MarketMaker Price) (mid : Price) : Prop :=
  maker.hasQuoted = false ∨
    (0 < maker.quotedMid ∧ params.requoteThresholdPct < |mid - maker.quotedMid| / maker.quotedMid)

instance (maker : MarketMaker Price) (mid : Price) : Decidable (maker.NeedsQuote params mid) :=
  inferInstanceAs (Decidable (_ ∨ _))

/-- `onTick`, up to the first call of `requote`. -/
def MarketMaker.onTick (maker : MarketMaker Price) : MakerPc Price :=
  if maker.NeedsQuote params (maker.computeMid params) then
    .cancelBid (maker.computeMid params) maker.bidOrderId maker.askOrderId
  else .idle

/-- A call to the exchange. -/
inductive MakerCall (Price : Type)
  | cancel (orderId : String)
  | submit (side : Int) (price : Price)

/-- The call that is made next; a remembered id that is empty is not cancelled. -/
def MakerPc.call? : MakerPc Price → Option (MakerCall Price)
  | .cancelBid _ oldBid _ => if oldBid = "" then none else some (.cancel oldBid)
  | .cancelAsk _ oldAsk => if oldAsk = "" then none else some (.cancel oldAsk)
  | .submitBid mid => some (.submit 1 (mid - params.spread / 2))
  | .submitAsk mid _ => some (.submit 2 (mid + params.spread / 2))
  | .idle | .store _ _ _ => none

/-- The operation that a call makes the exchange perform, with the id that a submit is given. -/
def MakerCall.payload (call : MakerCall Price) (orderId : String) : Operation Price :=
  match call with
  | .cancel cancelledId => (Request.cancelOrder ⟨params.nodeId, cancelledId⟩).payload
  | .submit side price =>
    (Request.submitOrder ⟨params.nodeId, side, 2, price, params.size⟩ orderId).payload

/-- Where `requote` stands after a call, or after a cancel that is not made. -/
def MakerPc.returned (outcome : RpcOutcome (EngineResult Price)) :
    MakerPc Price → MakerPc Price
  | .idle => .idle
  | .cancelBid mid _ oldAsk => .cancelAsk mid oldAsk
  | .cancelAsk mid _ => .submitBid mid
  | .submitBid mid => .submitAsk mid (ExchangeClient.submitOrder outcome)
  | .submitAsk mid bidResult => .store mid bidResult (ExchangeClient.submitOrder outcome)
  | .store mid bidResult askResult => .store mid bidResult askResult

/-- The end of `requote`. -/
def MarketMaker.stored (maker : MarketMaker Price) (mid : Price)
    (bidResult askResult : SubmitResult Price) : MarketMaker Price :=
  { maker with
    bidOrderId := bidResult.quoteId
    askOrderId := askResult.quoteId
    quotedMid := mid
    hasQuoted := true }

end Strategy

end MarketSandbox
