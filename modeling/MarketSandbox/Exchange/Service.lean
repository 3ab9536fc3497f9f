/-
This file models the service's requests and what they may do to quantities.
Neither the handler nor the order's conversion restricts a quantity, so a
request with a negative one that is not a market order rests as it is and the
orders that meet it trade negative amounts. Quantities stay sound in exactly
the runs without such a request.
-/

import MarketSandbox.Exchange.Ledger

namespace MarketSandbox

open GreedyFill

variable {Price : Type}

/-! ### Requests -/

/-- `OrderSideDTO::protoToOrderSide`: the enumerator of the same value. -/
def OrderSide.protoToOrderSide : Int → OrderSide
  | 0 => .unspecified
  | 1 => .bid
  | 2 => .ask
  | value => .unrecognized value

/-- `OrderTypeDTO::protoToOrderType`: the enumerator of the same value. -/
def OrderType.protoToOrderType : Int → OrderType
  | 0 => .unspecified
  | 1 => .market
  | 2 => .limit
  | value => .unrecognized value

/-- `SubmitOrderRequest`, with its order's fields in place. -/
structure SubmitOrderRequest (Price : Type) where
  nodeId : String
  orderSide : Int
  orderType : Int
  price : Price
  quantity : Int

/-- `CancelOrderRequest`. -/
structure CancelOrderRequest where
  nodeId : String
  orderId : String

/-- `OrderDTO::protoToOrder`. -/
def SubmitOrderRequest.protoToOrder (request : SubmitOrderRequest Price) : Order Price where
  side := .protoToOrderSide request.orderSide
  orderType := .protoToOrderType request.orderType
  price := request.price
  quantity := request.quantity
  orderId := ""
  nodeId := ""

/-- A request to the service; a submit with the id that `OrderIdGenerator` gives it. -/
inductive Request (Price : Type)
  | submitOrder (request : SubmitOrderRequest Price) (orderId : String)
  | cancelOrder (request : CancelOrderRequest)

/-- The payload that the handlers `SubmitOrder` and `CancelOrder` enqueue. -/
def Request.payload : Request Price → Operation Price
  | .submitOrder request orderId =>
    .submit { request.protoToOrder with orderId := orderId, nodeId := request.nodeId }
  | .cancelOrder request => .cancel request.orderId request.nodeId

/-- A request that is not a submit, under a type other than `MARKET`, of a negative quantity. -/
def Request.Harmless : Request Price → Prop
  | .submitOrder request _ =>
    OrderType.protoToOrderType request.orderType ≠ .market → 0 ≤ request.quantity
  | .cancelOrder _ => True

/-- Trades and resting orders have positive quantities, and no submit fills less than nothing
or more than its order's quantity. -/
def SoundQuantities [LT Price] (records : List (Record Price)) : Prop :=
  ∀ record ∈ records,
    (∀ trade ∈ record.trades, 0 < trade.quantity) ∧
    (∀ resting ∈ record.after.restingOrders, 0 < resting.quantity) ∧
    ∀ order, record.operation = .submit order →
      0 ≤ record.result.filledQuantity ∧ record.result.filledQuantity ≤ max order.quantity 0

/-- The requests are harmless exactly when the orders they submit are. -/
theorem harmless_iff [LT Price] {requests : List (Request Price)}
    {records : List (Record Price)}
    (handled : records.map Record.operation = requests.map Request.payload) :
    (∀ request ∈ requests, request.Harmless) ↔ NoNegativeRemainder records := by
  have bySubmits : submitted records =
      requests.filterMap fun request => request.payload.submitted? := by
    rw [submitted, ← Function.comp_def, ← List.filterMap_map, handled, List.filterMap_map]
    rfl
  rw [NoNegativeRemainder, bySubmits]
  constructor
  · intro harmless order member notMarket
    obtain ⟨request, inRequests, isOrder⟩ := List.mem_filterMap.mp member
    have requestHarmless := harmless request inRequests
    cases request with
    | submitOrder request orderId =>
      obtain rfl := Option.some.inj isOrder
      exact requestHarmless notMarket
    | cancelOrder request => cases isOrder
  · intro sound request member
    cases request with
    | submitOrder request orderId =>
      exact fun notMarket => sound _ (List.mem_filterMap.mpr ⟨_, member, rfl⟩) notMarket
    | cancelOrder request => trivial

/-! ### Quantities over a run -/

variable [PriceArithmetic Price]

namespace OrderBook

/-- An order that asks for nothing leaves the levels alone, whatever they hold. -/
theorem matchLevels_of_nonpos (side : BookSide) (order : Order Price) (timestamp : Nat)
    (entries : List (Price × List (RestingNode Price))) (state : MatchState Price)
    (nothing : ¬ state.filledQty < order.quantity) :
    matchLevels side order timestamp entries state = (entries, state) := by
  cases entries with
  | nil => rfl
  | cons entry rest => rw [matchLevels, if_neg nothing]

/-- An order of negative quantity that is not a market order rests with that quantity. -/
theorem negative_rests (book : OrderBook Price) (order : Order Price) (timestamp : Nat)
    (notMarket : order.orderType ≠ .market) (negative : order.quantity < 0) :
    ∃ resting ∈ (book.submit order timestamp).book.restingOrders, resting.quantity < 0 := by
  have nothing : ¬ book.startMatch.filledQty < order.quantity := by
    simp only [startMatch]
    omega
  have rests : Rests order book.startMatch.filledQty :=
    ⟨notMarket, by simp only [startMatch]; omega⟩
  rw [submit_eq, submitTo, conclude_book, matchLevels_of_nonpos _ _ _ _ _ nothing, if_pos rests]
  refine ⟨_, (rest_restingOrders _ _ _).mem_iff.mpr List.mem_cons_self, ?_⟩
  simp only [startMatch, Order.reduceQuantity_quantity]
  omega

end OrderBook

/-- Requests corrupt quantities exactly when some order other than a market order has a
negative quantity. -/
theorem sound_quantities_iff {requests : List (Request Price)} {records : List (Record Price)}
    {book : OrderBook Price} (run : BookRun records book)
    (handled : records.map Record.operation = requests.map Request.payload)
    (fresh : FreshIds records) :
    SoundQuantities records ↔ ∀ request ∈ requests, request.Harmless := by
  rw [harmless_iff handled]
  constructor
  · intro soundQuantities order member notMarket
    by_contra negative
    obtain ⟨record, inRecords, isOrder⟩ := List.mem_filterMap.mp member
    have isSubmit : record.operation = .submit order := by
      cases operation : record.operation with
      | submit other =>
        rw [operation] at isOrder
        rw [Option.some.inj isOrder]
      | cancel _ _ =>
        rw [operation] at isOrder
        cases isOrder
    obtain ⟨front, back, rfl⟩ := List.append_of_mem inRecords
    obtain ⟨source, prior, steps⟩ := run.split
    cases steps with
    | cons step _ =>
      obtain ⟨rfl, rfl, performed⟩ := step
      rw [isSubmit] at performed
      obtain ⟨resting, inResting, isNegative⟩ := record.before.negative_rests order
        record.timestamp notMarket (not_le.mp negative)
      rw [Option.some.inj performed] at inResting
      have positive := (soundQuantities record inRecords).2.1 resting inResting
      omega
  · intro sound record member
    obtain ⟨front, reached, newIds, step⟩ :=
      bookRun_step_of_mem run fresh sound (.of_linear _) member
    have after : record.after.Valid := by
      obtain ⟨front, back, rfl⟩ := List.append_of_mem member
      rw [← List.singleton_append, ← List.append_assoc] at run fresh sound
      obtain ⟨target, prior, _⟩ := run.split
      obtain ⟨_, _, isLast⟩ := prior.last
      obtain ⟨_, rfl, _⟩ := isLast
      exact (bookRun_reached prior fresh.earlier sound.earlier (.of_linear _)).valid
    refine ⟨?_, after.resting_positive, ?_⟩
    · cases step_effect reached.valid.wired step with
      | submit order isSubmit outcome =>
        have positive := OrderBook.submitTo_trades_positive reached.valid
          (BookSide.ofOrder order.side) order record.timestamp
        rwa [outcome] at positive
      | cancel nodeId side node resting isCancel after erased book result events =>
        rw [Record.trades, events]
        exact fun _ inTrades => absurd inTrades List.not_mem_nil
      | missing orderId nodeId isCancel notResting unchanged result events =>
        rw [Record.trades, events]
        exact fun _ inTrades => absurd inTrades List.not_mem_nil
    · intro order isSubmit
      have filled := OrderBook.submitTo_filledQuantity (BookSide.ofOrder order.side) order
        record.timestamp reached.valid.wired
      obtain ⟨_, _, performed⟩ := step
      rw [isSubmit] at performed
      rw [← OrderBook.submit_eq, show record.before.submit order record.timestamp = _ from
        Option.some.inj performed] at filled
      simp only at filled
      rw [filled]
      exact ⟨OrderBook.filledBy_nonneg reached.valid _ order,
        OrderBook.filledBy_le_max _ _ order⟩

namespace Sample

/-- An ask of a negative quantity, and a well-formed bid that meets it. -/
def corruptRequests : List (Request ℚ) :=
  [.submitOrder ⟨"mm-1", 2, 2, 100, -5⟩ "ORD-0", .submitOrder ⟨"mom-1", 1, 2, 100, 10⟩ "ORD-1"]

def negativeAsk : Record ℚ :=
  submitRecord .empty 1 ⟨.ask, .limit, 100, -5, "ORD-0", "mm-1"⟩

def corruptBid : Record ℚ :=
  submitRecord negativeAsk.after 2 ⟨.bid, .limit, 100, 10, "ORD-1", "mom-1"⟩

theorem corruptRun : BookRun [negativeAsk, corruptBid] corruptBid.after :=
  ((Transition.Run.start rfl).next (submitRecord_step _ _ _)).next (submitRecord_step _ _ _)

end Sample

theorem sound_quantities_iff_sample :
    SoundQuantities Sample.records ↔
      ∀ request ∈ ([.submitOrder ⟨"mm-1", 2, 2, 101, 5⟩ "ORD-0",
        .submitOrder ⟨"mm-2", 2, 2, 100, 5⟩ "ORD-1", .submitOrder ⟨"mom-1", 1, 2, 100, 7⟩ "ORD-2",
        .cancelOrder ⟨"mm-1", "ORD-0"⟩] : List (Request ℚ)), request.Harmless :=
  sound_quantities_iff Sample.run rfl Sample.freshIds

/-- The ask rests with its negative quantity, the bid trades minus five units with it, reports
minus five filled, and rests with fifteen units of ten. -/
theorem negative_quantity_corrupts :
    BookRun [Sample.negativeAsk, Sample.corruptBid] Sample.corruptBid.after ∧
      [Sample.negativeAsk, Sample.corruptBid].map Record.operation =
        Sample.corruptRequests.map Request.payload ∧
      FreshIds [Sample.negativeAsk, Sample.corruptBid] ∧
      Sample.negativeAsk.after.restingOrders.map Order.quantity = [-5] ∧
      Sample.corruptBid.trades.map Trade.quantity = [-5] ∧
      Sample.corruptBid.result.filledQuantity = -5 ∧
      Sample.corruptBid.after.restingOrders.map Order.quantity = [15] ∧
      ¬ SoundQuantities [Sample.negativeAsk, Sample.corruptBid] := by
  refine ⟨Sample.corruptRun, rfl, by decide, by decide, by decide, by decide, by decide, ?_⟩
  intro sound
  have positive := (sound Sample.corruptBid (by simp)).2.2
    ⟨.bid, .limit, 100, 10, "ORD-1", "mom-1"⟩ rfl
  exact absurd positive.1 (by decide)

end MarketSandbox
