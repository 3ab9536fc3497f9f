/-
This file proves when orders trade within their limits. A resting order always
trades at its own price. The matching loops stop at the limit of a `LIMIT`
order only, while every order that is not `MARKET` may rest, so an order of
another type keeps its limit exactly when nothing rests beyond it or what rests
within it is enough.
-/

import MarketSandbox.Exchange.Priority
import MarketSandbox.Exchange.Service
import MarketSandbox.Exchange.Submitters

namespace MarketSandbox

open GreedyFill

variable {Price : Type}

/-! ### Limits -/

section Limits

variable [PriceOperations Price]

/-- A price beyond an order's limit: above it for a buy, below it for a sell. -/
def Order.Beyond (order : Order Price) (price : Price) : Prop :=
  (BookSide.ofOrder order.side).beyondLimit price order.price

instance (order : Order Price) (price : Price) : Decidable (order.Beyond price) :=
  inferInstanceAs (Decidable (BookSide.beyondLimit _ _ _))

/-- An order that may rest trades at its limit or better as aggressor, and at its limit as
resting order. -/
def TradesWithinLimits (records : List (Record Price)) : Prop :=
  ∀ order ∈ submitted records, order.orderType ≠ .market →
    ∀ record ∈ records, ∀ trade ∈ record.trades,
      (trade.aggressorOrderId = order.orderId → ¬ order.Beyond trade.price) ∧
      (trade.restingOrderId = order.orderId → trade.price = order.price)

/-- The quantity resting on the other side of an order at its limit or better. -/
def OrderBook.quantityWithin (book : OrderBook Price) (order : Order Price) : Int :=
  (((book.resting (BookSide.ofOrder order.side).opposite).filter fun resting =>
    ¬ order.Beyond resting.price).map Order.quantity).sum

/-- Nothing rests on the other side of an order beyond its limit, or enough rests within it. -/
def OrderBook.Suffices (book : OrderBook Price) (order : Order Price) : Prop :=
  (∀ resting ∈ book.resting (BookSide.ofOrder order.side).opposite,
    ¬ order.Beyond resting.price) ∨ order.quantity ≤ book.quantityWithin order

/-- The order of the same limit whose type is `LIMIT`. -/
def Order.limited (order : Order Price) : Order Price := { order with orderType := .limit }

end Limits

namespace OrderBook

variable [PriceOperations Price] {book : OrderBook Price}

theorem blocked_limited_iff (order : Order Price) (price : Price) :
    Blocked (BookSide.ofOrder order.side) order.limited price ↔ order.Beyond price := by
  simp [Blocked, Order.limited, Order.Beyond]

/-- The levels of a side are open to an order that is not `LIMIT`. -/
theorem openNodes_of_not_limit (side : BookSide) (order : Order Price)
    (entries : List (Price × List (RestingNode Price))) (notLimit : order.orderType ≠ .limit) :
    openNodes side order entries = entries.flatMap Prod.snd := by
  rw [openNodes, List.takeWhile_eq_self_iff.mpr]
  intro entry _
  simpa using fun blocked : Blocked side order entry.1 => notLimit blocked.1

/-- An order that is not `LIMIT` fills beyond its limit unless the book suffices for it. -/
theorem fills_beyond_iff (valid : book.Valid) {order : Order Price}
    (notLimit : order.orderType ≠ .limit) :
    (∃ fill ∈ nodeFills order.quantity (openNodes (BookSide.ofOrder order.side) order
        (book.levels (BookSide.ofOrder order.side).opposite).entries),
      order.Beyond fill.1.price) ↔ ¬ book.Suffices order := by
  have split := resting_split book (BookSide.ofOrder order.side) order.limited
  have within := filter_open valid (BookSide.ofOrder order.side) order.limited
  have beyond := shut_blocked valid (BookSide.ofOrder order.side) order.limited
  have notBeyond := open_not_blocked valid (BookSide.ofOrder order.side) order.limited
  simp only [blocked_limited_iff] at within beyond notBeyond
  have positive : Positive Order.quantity ((openNodes (BookSide.ofOrder order.side) order.limited
      (book.levels (BookSide.ofOrder order.side).opposite).entries).map RestingNode.order) := by
    intro resting member
    obtain ⟨node, isOpen, rfl⟩ := List.mem_map.mp member
    exact openNodes_positive valid _ _ node isOpen
  rw [openNodes_of_not_limit _ _ _ notLimit, nodeFills_eq]
  have everything : (((book.levels (BookSide.ofOrder order.side).opposite).entries).flatMap
      Prod.snd).map RestingNode.order = book.resting (BookSide.ofOrder order.side).opposite := rfl
  rw [everything, split, fills_reach_iff (fun resting => order.Beyond resting.price) positive
    notBeyond beyond, Suffices, quantityWithin, within, split, not_or, not_le]
  refine and_congr_left' ⟨fun nonempty none => ?_, fun some isNil => some fun resting member => ?_⟩
  · obtain ⟨resting, member⟩ := List.exists_mem_of_ne_nil _ nonempty
    exact none resting (List.mem_append_right _ member) (beyond resting member)
  · rw [isNil, List.append_nil] at member
    exact notBeyond resting member

end OrderBook

variable [PriceOperations Price]

/-- The trades of an order as aggressor are within its limit if it is `LIMIT`, and otherwise
exactly when the book suffices for it. -/
theorem SubmitEffect.within_iff {source target : OrderBook Price} {record : Record Price}
    {order : Order Price} (effect : SubmitEffect source record target order)
    (valid : source.Valid) :
    (∀ trade ∈ record.trades, ¬ order.Beyond trade.price) ↔
      order.orderType = .limit ∨ source.Suffices order := by
  by_cases isLimit : order.orderType = .limit
  · refine iff_of_true (fun trade member beyond => ?_) (.inl isLimit)
    obtain ⟨resting, isOpen, _, price⟩ := effect.hits member
    exact OrderBook.open_not_blocked valid _ order resting isOpen ⟨isLimit, price ▸ beyond⟩
  · have byPrice : (∀ trade ∈ record.trades, ¬ order.Beyond trade.price) ↔
        ∀ fill ∈ nodeFills order.quantity (OrderBook.openNodes (BookSide.ofOrder order.side) order
          (source.levels (BookSide.ofOrder order.side).opposite).entries),
          ¬ order.Beyond fill.1.price := by
      rw [← List.forall_mem_map (f := Trade.price) (P := fun price => ¬ order.Beyond price),
        effect.trades, fillTrades_price, List.forall_mem_map]
    have beyond := not_congr (OrderBook.fills_beyond_iff valid isLimit)
    rw [byPrice, or_iff_right isLimit, ← not_not (a := source.Suffices order), ← beyond]
    simp only [not_exists, not_and]

/-! ### Every trade of a run -/

/-- An id names one submitted order. -/
theorem FreshIds.unique {records : List (Record Price)} (fresh : FreshIds records)
    {first second : Order Price} (inFirst : first ∈ submitted records)
    (inSecond : second ∈ submitted records) (same : first.orderId = second.orderId) :
    first = second :=
  List.inj_on_of_nodup_map fresh inFirst inSecond same

/-- A resting order trades at its limit in every run. -/
theorem bookRun_trades_at_limit {records : List (Record Price)} {book : OrderBook Price}
    (run : BookRun records book) (fresh : FreshIds records)
    (sound : NoNegativeRemainder records) (inPlace : InPlace records) {record : Record Price}
    (member : record ∈ records) {trade : Trade Price} (inTrades : trade ∈ record.trades)
    {order : Order Price}
    (inSubmitted : order ∈ submitted records) (named : trade.restingOrderId = order.orderId) :
    trade.price = order.price := by
  obtain ⟨front, back, rfl, prior, step⟩ := bookRun_split_of_mem run member
  have valid := (bookRun_reached prior fresh.earlier sound.earlier inPlace.earlier).valid
  obtain ⟨other, _, effect⟩ := submit_of_mem_trades valid step inTrades
  obtain ⟨resting, isOpen, isId, isPrice⟩ := effect.hits inTrades
  have inBook : resting ∈ record.before.restingOrders := by
    refine (record.before.restingOrders_perm (BookSide.ofOrder other.side)).mem_iff.mpr
      (List.mem_append_right _ ?_)
    rw [OrderBook.resting_split]
    exact List.mem_append_left _ isOpen
  obtain ⟨origin, wasSubmitted, _, _, rfl⟩ :=
    bookRun_remainder prior fresh.earlier sound.earlier inPlace.earlier resting inBook
  have isOrigin : origin = order := by
    refine fresh.unique ?_ inSubmitted (isId.symm.trans named)
    rw [submitted_append]
    exact List.mem_append_left _ wasSubmitted
  rw [isPrice, ← isOrigin]
  rfl

namespace Sample

/-- Two asks rest, and an order without a type buys from both. -/
def typelessRequests : List (Request ℚ) :=
  [.submitOrder ⟨"mm-1", 2, 2, 101, 5⟩ "ORD-0", .submitOrder ⟨"mm-2", 2, 2, 100, 5⟩ "ORD-1",
    .submitOrder ⟨"mom-1", 1, 0, 100, 7⟩ "ORD-2"]

def typeless : Record ℚ :=
  submitRecord secondAsk.after 3 ⟨.bid, .unspecified, 100, 7, "ORD-2", "mom-1"⟩

theorem typelessRun : BookRun [firstAsk, secondAsk, typeless] typeless.after :=
  askRun.next (submitRecord_step _ _ _)

end Sample

/-- In every run in which every order came to rest in place, the orders that may rest trade within
their limits exactly when each is `LIMIT`, or nothing rests on the other side beyond its limit, or
enough rests within it. -/
theorem trades_within_limits_iff {records : List (Record Price)} {book : OrderBook Price}
    (run : BookRun records book) (fresh : FreshIds records)
    (positive : PositiveQuantities records) (inPlace : InPlace records) :
    TradesWithinLimits records ↔
      ∀ record ∈ records, ∀ order, record.operation = .submit order →
        order.orderType = .market ∨ order.orderType = .limit ∨ record.before.Suffices order := by
  have sound := positive.noNegativeRemainder
  constructor
  · intro within record member order isSubmit
    obtain ⟨_, reached, _, step⟩ := bookRun_step_of_mem run fresh sound inPlace member
    have effect := submit_effect reached.valid.wired step isSubmit
    have inSubmitted : order ∈ submitted records :=
      List.mem_filterMap.mpr ⟨record, member, by rw [isSubmit]; rfl⟩
    refine or_iff_not_imp_left.mpr fun notMarket => (effect.within_iff reached.valid).mp ?_
    intro trade inTrades
    exact (within order inSubmitted notMarket record member trade inTrades).1
      (effect.aggressor inTrades)
  · intro meets order inSubmitted notMarket record member trade inTrades
    refine ⟨fun named => ?_, bookRun_trades_at_limit run fresh sound inPlace member inTrades
      inSubmitted⟩
    obtain ⟨_, reached, _, step⟩ := bookRun_step_of_mem run fresh sound inPlace member
    obtain ⟨other, isSubmit, effect⟩ := submit_of_mem_trades reached.valid step inTrades
    obtain rfl : other = order := by
      refine fresh.unique ?_ inSubmitted ((effect.aggressor inTrades).symm.trans named)
      exact List.mem_filterMap.mpr ⟨record, member, by rw [isSubmit]; rfl⟩
    exact (effect.within_iff reached.valid).mpr
      ((meets record member other isSubmit).resolve_left notMarket) trade inTrades

theorem trades_within_limits_iff_sample : TradesWithinLimits Sample.unpriced := by
  have types : ∀ order ∈ submitted Sample.unpriced,
      order.orderType = .market ∨ order.orderType = .limit := by decide
  refine (trades_within_limits_iff Sample.unpricedRun Sample.unpricedFresh
    Sample.unpricedPositive Sample.unpricedInPlace).mpr ?_
  intro record member order isSubmit
  exact (types order (List.mem_filterMap.mpr ⟨record, member, by rw [isSubmit]; rfl⟩)).imp_right
    .inl

/-- A buy of seven at 100 without a type takes five at 100 and two at 101. -/
theorem typeless_trades_through :
    BookRun [Sample.firstAsk, Sample.secondAsk, Sample.typeless] Sample.typeless.after ∧
      [Sample.firstAsk, Sample.secondAsk, Sample.typeless].map Record.operation =
        Sample.typelessRequests.map Request.payload ∧
      FreshIds [Sample.firstAsk, Sample.secondAsk, Sample.typeless] ∧
      PositiveQuantities [Sample.firstAsk, Sample.secondAsk, Sample.typeless] ∧
      Sample.typeless.trades.map (fun trade => (trade.price, trade.quantity)) =
        [(100, 5), (101, 2)] ∧
      ¬ TradesWithinLimits [Sample.firstAsk, Sample.secondAsk, Sample.typeless] := by
  refine ⟨Sample.typelessRun, rfl, by decide, by decide, by decide, ?_⟩
  intro within
  have beyond := (within ⟨.bid, .unspecified, 100, 7, "ORD-2", "mom-1"⟩ (by decide) (by decide)
    Sample.typeless (by simp) ⟨"TRD-1", 101, 2, .bid, "ORD-2", "ORD-0", 3⟩ (by decide)).1 rfl
  exact beyond (by decide)

end MarketSandbox
