/-
This file compares the direction of a trade as the book executed it with the
direction that its event and the normalizer report. The book takes an order for
a sell unless its side is `BID`, the event carries the order's side as it is,
and the normalizer takes a side it does not know for a buy. The three agree
exactly on the orders whose side is `BID` or `ASK`.
-/

import MarketSandbox.Exchange.Service
import MarketSandbox.Exchange.Submitters
import MarketSandbox.Gateway.Delivery

namespace MarketSandbox

variable {Price : Type}

/-! ### Directions -/

/-- The order that a trade hit rested on a side of the book. -/
def Record.ExecutedAgainst [LinearOrder Price] (record : Record Price) (side : BookSide)
    (trade : Trade Price) : Prop :=
  trade.restingOrderId ∈ (record.before.resting side).map Order.orderId

/-- The event and the normalizer report the direction in which the book executed a trade. -/
def DirectionReported [LinearOrder Price] (record : Record Price) (trade : Trade Price)
    (wire : WireTrade Price) : Prop :=
  ∀ side : BookSide, record.ExecutedAgainst side.opposite trade →
    trade.aggressorSide = side.tag ∧ wire.aggressorSide = side

instance [LinearOrder Price] (record : Record Price) (side : BookSide) (trade : Trade Price) :
    Decidable (record.ExecutedAgainst side trade) :=
  inferInstanceAs (Decidable (_ ∈ _))

/-- The reports of a side agree with the book's reading of it when it is `BID` or `ASK`. -/
theorem reported_side_iff (side : OrderSide) :
    (side = (BookSide.ofOrder side).tag ∧
        (wireSide (some side)).getD .bid = BookSide.ofOrder side) ↔
      side = .bid ∨ side = .ask := by
  cases side <;> simp [BookSide.ofOrder, BookSide.tag, wireSide]

variable [PriceArithmetic Price]

/-- An id that rests on a side does not rest on the other. -/
theorem OrderBook.Valid.one_side {book : OrderBook Price} (valid : book.Valid) {orderId : String}
    {first second : BookSide} (inFirst : orderId ∈ (book.resting first).map Order.orderId)
    (inSecond : orderId ∈ (book.resting second).map Order.orderId) : first = second := by
  by_contra different
  have isOpposite : second = first.opposite := by
    cases first <;> cases second <;> first | rfl | exact absurd rfl different
  have distinct := ((book.restingOrders_perm first).map Order.orderId).nodup_iff.mp
    valid.nodup_restingIds
  rw [List.map_append] at distinct
  exact List.disjoint_of_nodup_append distinct inFirst (isOpposite ▸ inSecond)

/-- A submit's trades hit resting orders of the opposite side, and no others. -/
theorem SubmitEffect.executedAgainst {target : OrderBook Price} {record : Record Price}
    {order : Order Price} (effect : SubmitEffect record.before record target order)
    (valid : record.before.Valid) {trade : Trade Price} (member : trade ∈ record.trades)
    (side : BookSide) :
    record.ExecutedAgainst side.opposite trade ↔ side = BookSide.ofOrder order.side := by
  have hit : record.ExecutedAgainst (BookSide.ofOrder order.side).opposite trade := by
    obtain ⟨resting, isOpen, named, _⟩ := effect.hits member
    rw [Record.ExecutedAgainst, named, OrderBook.resting_split]
    exact List.mem_map_of_mem (List.mem_append_left _ isOpen)
  constructor
  · intro executed
    have same := congrArg BookSide.opposite (valid.one_side executed hit)
    rwa [BookSide.opposite_opposite, BookSide.opposite_opposite] at same
  · rintro rfl
    exact hit

/-- Whether a submit's trade is reported in its direction depends on the order's side only. -/
theorem SubmitEffect.directionReported_iff {target : OrderBook Price} {record : Record Price}
    {order : Order Price} (effect : SubmitEffect record.before record target order)
    (valid : record.before.Valid) {trade : Trade Price} (member : trade ∈ record.trades)
    {node : String} {wire : WireTrade Price} (copied : Copied node trade wire) :
    DirectionReported record trade wire ↔ order.side = .bid ∨ order.side = .ask := by
  rw [← reported_side_iff, DirectionReported]
  simp only [effect.executedAgainst valid member, forall_eq, effect.aggressorSide member,
    copied.aggressorSide]

/-! ### Every trade of a run -/

namespace Sample

/-- A bid rests, and an order without a side sells to it. -/
def sidelessRequests : List (Request ℚ) :=
  [.submitOrder ⟨"mm-1", 1, 2, 100, 5⟩ "ORD-0", .submitOrder ⟨"mom-1", 0, 2, 100, 5⟩ "ORD-1"]

def waitingBid : Record ℚ := submitRecord .empty 1 ⟨.bid, .limit, 100, 5, "ORD-0", "mm-1"⟩

def sideless : Record ℚ :=
  submitRecord waitingBid.after 2 ⟨.unspecified, .limit, 100, 5, "ORD-1", "mom-1"⟩

theorem sidelessRun : BookRun [waitingBid, sideless] sideless.after :=
  ((Transition.Run.start rfl).next (submitRecord_step _ _ _)).next (submitRecord_step _ _ _)

end Sample

/-- In every run, each trade that browsers receive is a trade of the book, and its direction is
reported as it was executed exactly when the aggressor's side is `BID` or `ASK`. -/
theorem direction_reported_iff {records : List (Record Price)} {book : OrderBook Price}
    (run : BookRun records book) (fresh : FreshIds records)
    (positive : PositiveQuantities records) {record : Record Price} (member : record ∈ records)
    (trace : PipelineTrace) (now : Int) (normalizer : Normalizer Price) :
    List.Forall₂ (fun trade wire => wire.id = trade.tradeId ∧
        ∃ order, record.operation = .submit order ∧ trade.aggressorOrderId = order.orderId ∧
          (∃ side, record.ExecutedAgainst side trade) ∧
          (DirectionReported record trade wire ↔ order.side = .bid ∨ order.side = .ask))
      record.trades (normalizer.wire ⟨record, trace, now⟩).trades := by
  obtain ⟨_, reached, _, step⟩ :=
    bookRun_step_of_mem run fresh positive.noNegativeRemainder (.of_linear _) member
  obtain ⟨node, received⟩ := Delivery.wire_trades ⟨record, trace, now⟩ normalizer
  have copies := normalizeTrades_copies node record.trades normalizer.resting
  rw [received]
  refine List.forall₂_iff_get.mpr ⟨copies.length_eq, fun index isTrade isWire => ?_⟩
  have copied := copies.get isTrade isWire
  refine ⟨copied.id, ?_⟩
  have inTrades := List.get_mem record.trades ⟨index, isTrade⟩
  obtain ⟨order, isSubmit, effect⟩ := submit_of_mem_trades reached.valid step inTrades
  exact ⟨order, isSubmit, effect.aggressor inTrades,
    ⟨_, (effect.executedAgainst reached.valid inTrades _).mpr rfl⟩,
    effect.directionReported_iff reached.valid inTrades copied⟩

theorem direction_reported_iff_sample :
    Sample.sweep.trades.length =
      (Normalizer.initial.wire ⟨Sample.sweep, ⟨1, 0, 0, 0, 0, 0, 0⟩, 1⟩).trades.length :=
  (direction_reported_iff Sample.run Sample.freshIds Sample.positiveQuantities
    (show Sample.sweep ∈ Sample.records by simp [Sample.records]) ⟨1, 0, 0, 0, 0, 0, 0⟩ 1
    Normalizer.initial).length_eq

/-- An order without a side is executed against the bids, its trade carries no side, and the
normalizer reports a buy. -/
theorem sideless_misreported :
    BookRun [Sample.waitingBid, Sample.sideless] Sample.sideless.after ∧
      [Sample.waitingBid, Sample.sideless].map Record.operation =
        Sample.sidelessRequests.map Request.payload ∧
      FreshIds [Sample.waitingBid, Sample.sideless] ∧
      PositiveQuantities [Sample.waitingBid, Sample.sideless] ∧
      ∃ trade wire, Sample.sideless.trades = [trade] ∧
        (Normalizer.initial.wire (Sample.delivery 1 Sample.sideless)).trades = [wire] ∧
        Sample.sideless.ExecutedAgainst .bid trade ∧ trade.aggressorSide = .unspecified ∧
        wire.aggressorSide = .bid ∧ ¬ DirectionReported Sample.sideless trade wire := by
  refine ⟨Sample.sidelessRun, rfl, by decide, by decide, _, _, rfl, rfl, by decide, rfl, rfl, ?_⟩
  intro reported
  exact absurd (reported .ask (by decide)).1 (by decide)

end MarketSandbox
