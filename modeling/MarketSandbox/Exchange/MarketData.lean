/-
This file proves that market data agrees with the book. Each submit and each
successful cancel emits its trades and then one top of book, made of the book it
leaves; so the last top of book of a run is that of the current book, and both
it and the depth are given by the prices at which orders rest and by the
quantity and the number of the orders at each. The depth's order count is a
32-bit number, and a level can hold more orders than that.
-/

import MarketSandbox.Exchange.Submitters
import MarketSandbox.Exchange.Telemetry

namespace MarketSandbox

open GreedyFill

variable {Price : Type}

/-! ### The book by price -/

/-- The best price a top of book shows for a side. -/
def TopOfBook.price (top : TopOfBook Price) : BookSide → Option Price
  | .bid => top.bidPrice
  | .ask => top.askPrice

/-- The quantity a top of book shows for a side. -/
def TopOfBook.quantity (top : TopOfBook Price) : BookSide → Option Int
  | .bid => top.bidQuantity
  | .ask => top.askQuantity

/-- The levels a depth shows for a side. -/
def BookDepth.levels (depth : BookDepth Price) : BookSide → List (DepthLevel Price)
  | .bid => depth.bids
  | .ask => depth.asks

/-- The last top of book of a list of events. -/
def lastTop (events : List (MarketEvent Price)) : Option (TopOfBook Price) :=
  (events.filterMap MarketEvent.topOfBook?).getLast?

theorem lastTop_append_top (events : List (MarketEvent Price)) (top : TopOfBook Price) :
    lastTop (events ++ [MarketEvent.topOfBook top]) = some top := by
  rw [lastTop, List.filterMap_append]
  exact List.getLast?_concat

namespace OrderBook

section Prices

variable [PriceOperations Price]

/-- The total quantity of the orders resting on a side at a price. -/
def quantityAt (book : OrderBook Price) (side : BookSide) (price : Price) : Int :=
  (((book.resting side).filter fun order => order.price = price).map Order.quantity).sum

/-- The number of the orders resting on a side at a price. -/
def ordersAt (book : OrderBook Price) (side : BookSide) (price : Price) : Nat :=
  ((book.resting side).filter fun order => order.price = price).length

/-- The prices at which orders rest on a side, strictly ordered from best to worst. -/
structure PriceLadder (book : OrderBook Price) (side : BookSide) (prices : List Price) : Prop where
  sorted : prices.Pairwise side.before
  complete : ∀ price, price ∈ prices ↔ ∃ order ∈ book.resting side, order.price = price

/-- The prices of a side's map. -/
def levelPrices (book : OrderBook Price) (side : BookSide) : List Price :=
  (book.levels side).entries.map Prod.fst

variable {book : OrderBook Price} {side : BookSide}

theorem Valid.priceLadder (valid : book.Valid) : PriceLadder book side (book.levelPrices side) where
  sorted := (book.levels side).sorted
  complete price := by
    rw [levelPrices, List.mem_map]
    constructor
    · rintro ⟨entry, member, rfl⟩
      obtain ⟨node, inLevel⟩ := List.exists_mem_of_ne_nil _ (valid.nonempty side entry member)
      exact ⟨node.order, List.mem_map_of_mem ((SortedMap.mem_concat _ _).mpr
        ⟨entry, member, inLevel⟩), (valid.fillable side).ownPrice entry member node inLevel⟩
    · rintro ⟨order, inResting, rfl⟩
      obtain ⟨node, inNodes, rfl⟩ := List.mem_map.mp inResting
      obtain ⟨level, inEntries, _⟩ := valid.wired.level inNodes
      exact ⟨_, inEntries, rfl⟩

/-- The orders resting at a level's price are the level's. -/
theorem Valid.resting_at (valid : book.Valid) {entry : Price × List (RestingNode Price)}
    (member : entry ∈ (book.levels side).entries) :
    ((book.resting side).filter fun order => order.price = entry.1) =
      entry.2.map RestingNode.order := by
  rw [resting, List.filter_map]
  exact congrArg _
    (SortedMap.filter_concat (book.levels side) (valid.fillable side).ownPrice member)

theorem Valid.quantityAt_eq (valid : book.Valid) {entry : Price × List (RestingNode Price)}
    (member : entry ∈ (book.levels side).entries) :
    book.quantityAt side entry.1 = levelQuantity entry.2 := by
  rw [quantityAt, valid.resting_at member, List.map_map]
  rfl

theorem Valid.ordersAt_eq (valid : book.Valid) {entry : Price × List (RestingNode Price)}
    (member : entry ∈ (book.levels side).entries) :
    book.ordersAt side entry.1 = entry.2.length := by
  rw [ordersAt, valid.resting_at member, List.length_map]

theorem Valid.quantityAt_pos (valid : book.Valid) {price : Price}
    (member : price ∈ book.levelPrices side) : 0 < book.quantityAt side price := by
  obtain ⟨entry, inEntries, rfl⟩ := List.mem_map.mp member
  have nonempty := valid.nonempty side entry inEntries
  rw [valid.quantityAt_eq inEntries, levelQuantity]
  refine List.sum_pos _ ?_ (by simpa using nonempty)
  intro quantity inLevel
  obtain ⟨node, inNodes, rfl⟩ := List.mem_map.mp inLevel
  exact (valid.fillable side).positive entry inEntries node inNodes

end Prices

variable [PriceOperations Price] {book : OrderBook Price} {side : BookSide}

/-- The depth shows the first price levels of each side. -/
theorem Valid.depth_levels (valid : book.Valid) (levels : Nat) :
    (book.depth levels).levels side = ((book.levelPrices side).take levels).map fun price =>
      ⟨price, book.quantityAt side price, book.ordersAt side price % 2 ^ 32⟩ := by
  have shown : (book.depth levels).levels side =
      ((book.levels side).entries.take levels).map depthLevel := by
    cases side <;> rfl
  rw [shown, levelPrices, ← List.map_take, List.map_map]
  refine List.map_congr_left fun entry inTaken => ?_
  have member := List.take_subset _ _ inTaken
  rw [Function.comp_apply, valid.quantityAt_eq member, valid.ordersAt_eq member, depthLevel]

/-- The top of book shows the best price and the quantity at it. -/
theorem top_price (book : OrderBook Price) (side : BookSide) (timestamp : Nat) :
    (book.currentTopOfBook timestamp).price side = (book.levelPrices side).head? := by
  rw [levelPrices, List.head?_map]
  cases side <;> rfl

theorem Valid.top_quantity (valid : book.Valid) (timestamp : Nat) :
    (book.currentTopOfBook timestamp).quantity side =
      (book.levelPrices side).head?.map (book.quantityAt side) := by
  have shown : (book.currentTopOfBook timestamp).quantity side =
      (book.levels side).entries.head?.map fun entry => levelQuantity entry.2 := by
    cases side <;> rfl
  rw [shown, levelPrices, List.head?_map, Option.map_map]
  refine Option.map_congr fun entry inHead => ?_
  rw [Function.comp_apply, valid.quantityAt_eq (List.mem_of_head? inHead)]

/-! ### The events of an operation -/

theorem conclude_events (book : OrderBook Price) (side : BookSide) (order : Order Price)
    (timestamp : Nat) (state : MatchState Price) :
    (book.conclude side order timestamp state).events = state.events ++ [MarketEvent.topOfBook
      ((book.conclude side order timestamp state).book.currentTopOfBook timestamp)] := by
  unfold conclude
  by_cases market : order.orderType = .market
  · simp [market]
  · by_cases full : state.filledQty = order.quantity <;> simp [market, full]

/-- A submit emits its trades and then the top of the book it leaves. -/
theorem submitTo_events (valid : book.Valid) (side : BookSide) (order : Order Price)
    (timestamp : Nat) :
    (book.submitTo side order timestamp).events =
      ((book.submitTo side order timestamp).events.filterMap MarketEvent.trade?).map .trade ++
        [MarketEvent.topOfBook
          ((book.submitTo side order timestamp).book.currentTopOfBook timestamp)] := by
  have loops := (matchLevels_eq side order timestamp (book.levels side.opposite).entries
    book.startMatch (valid.wired.ownPrice side.opposite)).1
  rw [submitTo_trades side order timestamp valid.wired, submitTo, conclude_events, loops]
  simp only [MatchState.fill, startMatch, List.nil_append, sub_zero]

end OrderBook

section Step

variable [PriceOperations Price] {source target : OrderBook Price} {record : Record Price}

/-- A submit and a successful cancel emit the trades and then the top of the book they leave;
any other cancel changes nothing and emits nothing. -/
theorem step_events (valid : source.Valid) (step : (bookSystem Price).step source record target) :
    record.events =
        record.trades.map .trade ++
          [MarketEvent.topOfBook (target.currentTopOfBook record.timestamp)] ∨
      (∃ orderId nodeId, record.operation = .cancel orderId nodeId) ∧
        record.result.cancelSuccessful = false ∧ record.events = [] ∧ target = source := by
  cases step_effect valid.wired step with
  | submit order isSubmit outcome =>
    have events := OrderBook.submitTo_events valid (BookSide.ofOrder order.side) order
      record.timestamp
    rw [outcome] at events
    exact .inl events
  | cancel nodeId side node resting isCancel after erased book result events =>
    rw [Record.trades_of_cancel events]
    exact .inl events
  | missing orderId nodeId isCancel notResting unchanged result events =>
    exact .inr ⟨⟨orderId, nodeId, isCancel⟩, by rw [result]; rfl, events, unchanged⟩

/-- The last top of book of a run is the current book's; before the first one the book is
empty. -/
def Published (records : List (Record Price)) (book : OrderBook Price) : Prop :=
  match lastTop (records.flatMap Record.events) with
  | none => ∀ side, (book.levels side).entries = []
  | some top => ∃ timestamp, top = book.currentTopOfBook timestamp

theorem Published.step {records : List (Record Price)} (published : Published records source)
    (valid : source.Valid) (step : (bookSystem Price).step source record target) :
    Published (records ++ [record]) target := by
  rw [Published, List.flatMap_append, List.flatMap_singleton]
  rcases step_events valid step with events | ⟨_, _, events, unchanged⟩
  · rw [events, ← List.append_assoc, lastTop_append_top]
    exact ⟨record.timestamp, rfl⟩
  · rw [events, List.append_nil, unchanged]
    exact published

theorem bookRun_published {records : List (Record Price)} {book : OrderBook Price}
    (run : BookRun records book) (fresh : FreshIds records)
    (sound : NoNegativeRemainder records) (inPlace : InPlace records) :
    Published records book := by
  refine bookRun_invariant Published ?_ ?_ run fresh sound inPlace
  · intro side
    cases side <;> rfl
  · intro records source record target reached _ _ _ step published
    exact published.step reached.valid step

end Step

/-! ### The results -/

/-- Market data agrees with the book: the events of each operation, the last top of book and
the depth. -/
theorem market_data_agrees [PriceOperations Price] {records : List (Record Price)}
    {book : OrderBook Price} (run : BookRun records book) (fresh : FreshIds records)
    (positive : PositiveQuantities records) (inPlace : InPlace records) :
    (∀ record ∈ records, (∃ order, record.operation = .submit order) ∨
        record.result.cancelSuccessful = true →
      ∃ top, record.events = record.trades.map .trade ++ [MarketEvent.topOfBook top]) ∧
    ∀ side, ∃ prices, book.PriceLadder side prices ∧
      (∀ price ∈ prices, 0 < book.quantityAt side price) ∧
      (∀ levels, (book.depth levels).levels side = (prices.take levels).map fun price =>
        ⟨price, book.quantityAt side price, book.ordersAt side price % 2 ^ 32⟩) ∧
      (lastTop (records.flatMap Record.events) = none → prices = []) ∧
      ∀ top, lastTop (records.flatMap Record.events) = some top →
        top.price side = prices.head? ∧
        top.quantity side = prices.head?.map (book.quantityAt side) ∧
        ∀ levels, 1 ≤ levels →
          top.price side = ((book.depth levels).levels side).head?.map DepthLevel.price ∧
          top.quantity side = ((book.depth levels).levels side).head?.map DepthLevel.quantity := by
  have sound := positive.noNegativeRemainder
  have valid := (bookRun_reached run fresh sound inPlace).valid
  have published := bookRun_published run fresh sound inPlace
  constructor
  · intro record member emits
    obtain ⟨front, reached, _, step⟩ := bookRun_step_of_mem run fresh sound inPlace member
    rcases step_events reached.valid step with events | ⟨⟨_, _, isCancel⟩, failed, _, _⟩
    · exact ⟨_, events⟩
    · rcases emits with ⟨order, isSubmit⟩ | successful
      · rw [isCancel] at isSubmit
        cases isSubmit
      · rw [failed] at successful
        cases successful
  · intro side
    refine ⟨book.levelPrices side, valid.priceLadder, fun price => valid.quantityAt_pos,
      valid.depth_levels, ?_, ?_⟩
    · intro nothing
      rw [Published, nothing] at published
      rw [OrderBook.levelPrices, published side, List.map_nil]
    · intro top isLast
      rw [Published, isLast] at published
      obtain ⟨timestamp, rfl⟩ := published
      rw [OrderBook.top_price, valid.top_quantity]
      refine ⟨rfl, rfl, fun levels atLeastOne => ?_⟩
      rw [valid.depth_levels, List.head?_map, List.head?_take, if_neg (by omega), Option.map_map,
        Option.map_map]
      exact ⟨Option.map_id'.symm, rfl⟩

theorem market_data_agrees_sample :
    ∃ prices, Sample.unpricedBid.after.PriceLadder .ask prices ∧
      ∀ price ∈ prices, 0 < Sample.unpricedBid.after.quantityAt .ask price := by
  obtain ⟨prices, ladder, positive, _⟩ := (market_data_agrees Sample.unpricedRun
    Sample.unpricedFresh Sample.unpricedPositive Sample.unpricedInPlace).2 .ask
  exact ⟨prices, ladder, positive⟩

/-! ### A level with too many orders -/

namespace Sample

/-- One of many equal asks. -/
def crowdAsk (count : Nat) : Order ℚ := ⟨.ask, .limit, 100, 1, orderIdAt count, "mm-1"⟩

/-- The book in which many equal asks rest. -/
def crowdBook : Nat → OrderBook ℚ
  | 0 => .empty
  | count + 1 => (submitRecord (crowdBook count) 0 (crowdAsk count)).after

/-- The submits of many equal asks. -/
def crowd : Nat → List (Record ℚ)
  | 0 => []
  | count + 1 => crowd count ++ [submitRecord (crowdBook count) 0 (crowdAsk count)]

theorem crowdRun (count : Nat) : BookRun (crowd count) (crowdBook count) := by
  induction count with
  | zero => exact .start rfl
  | succ count inductionHypothesis => exact inductionHypothesis.next (submitRecord_step _ _ _)

theorem crowd_submitted (count : Nat) :
    submitted (crowd count) = (List.range count).map crowdAsk := by
  induction count with
  | zero => rfl
  | succ count inductionHypothesis =>
    rw [crowd, submitted_append, inductionHypothesis, List.range_succ, List.map_append]
    rfl

theorem crowd_fresh (count : Nat) : FreshIds (crowd count) := by
  rw [FreshIds, crowd_submitted, List.map_map]
  exact List.nodup_range.map orderIdAt_injective

theorem crowd_positive (count : Nat) : PositiveQuantities (crowd count) := by
  intro order member
  rw [crowd_submitted] at member
  obtain ⟨_, _, rfl⟩ := List.mem_map.mp member
  exact Int.one_pos

theorem crowd_nodes (count : Nat) : (crowdBook count).nodes .bid = [] ∧
    (crowdBook count).ordersAt .ask 100 = count := by
  induction count with
  | zero => exact ⟨rfl, rfl⟩
  | succ count inductionHypothesis =>
    obtain ⟨noBids, asks⟩ := inductionHypothesis
    have reached := bookRun_reached (crowdRun count) (crowd_fresh count)
      (crowd_positive count).noNegativeRemainder (.of_linear _)
    have effect := submit_effect reached.valid.wired
      (submitRecord_step (crowdBook count) 0 (crowdAsk count)) rfl
    have unfilled : (crowdBook count).filledBy .ask (crowdAsk count) = 0 := by
      have split := (crowdBook count).nodes_split .ask (crowdAsk count)
      have noNodes : (crowdBook count).nodes BookSide.ask.opposite = [] := noBids
      rw [noNodes] at split
      rw [OrderBook.filledBy, (List.append_eq_nil_iff.mp split.symm).1, total_nil]
    have matched := OrderBook.matched_nodes_of_unfilled reached.valid .ask (crowdAsk count) 0
      Int.one_pos unfilled
    have rested : crowdBook (count + 1) =
        ((crowdBook count).matched .ask (crowdAsk count) 0).rest .ask (crowdAsk count) := by
      have book := effect.book
      rw [show BookSide.ofOrder (crowdAsk count).side = .ask from rfl, unfilled,
        if_pos ⟨by rintro ⟨⟩, Int.zero_ne_one⟩] at book
      exact book
    constructor
    · rw [rested, show (BookSide.bid) = BookSide.ask.opposite from rfl,
        OrderBook.rest_nodes_opposite, matched]
      exact noBids
    · have same := (OrderBook.rest_nodes_self ((crowdBook count).matched .ask (crowdAsk count) 0)
        .ask (crowdAsk count)).map RestingNode.order
      rw [rested, OrderBook.ordersAt, OrderBook.resting, (same.filter _).length_eq, List.map_cons,
        List.filter_cons_of_pos (by simp [crowdAsk]), List.length_cons, matched]
      exact congrArg Nat.succ asks

/-- A level with `2^32` orders or more shows another number of them. -/
theorem crowd_wraps {count : Nat} (many : 2 ^ 32 ≤ count) : ∃ levels,
    ∃ level ∈ ((crowdBook count).depth levels).levels .ask,
      level.orders ≠ (crowdBook count).ordersAt .ask level.price := by
  have valid := (bookRun_reached (crowdRun count) (crowd_fresh count)
    (crowd_positive count).noNegativeRemainder (.of_linear _)).valid
  have orders := (crowd_nodes count).2
  have present : (100 : ℚ) ∈ (crowdBook count).levelPrices .ask := by
    rw [valid.priceLadder.complete]
    have some : 0 < (crowdBook count).ordersAt .ask 100 := by omega
    obtain ⟨order, member⟩ := List.exists_mem_of_length_pos some
    exact ⟨order, (List.mem_filter.mp member).1, of_decide_eq_true (List.mem_filter.mp member).2⟩
  refine ⟨((crowdBook count).levelPrices .ask).length, ?_⟩
  rw [valid.depth_levels, List.take_length]
  refine ⟨_, List.mem_map_of_mem present, ?_⟩
  simp only [orders]
  omega

end Sample

/-- With `2^32` asks at one price the depth does not report how many orders rest there. -/
theorem depth_orders_wrap : ∃ records : List (Record ℚ), ∃ book, BookRun records book ∧
    FreshIds records ∧ PositiveQuantities records ∧ ∃ levels,
      ∃ level ∈ (book.depth levels).levels .ask, level.orders ≠ book.ordersAt .ask level.price :=
  ⟨_, _, Sample.crowdRun (2 ^ 32), Sample.crowd_fresh _, Sample.crowd_positive _,
    Sample.crowd_wraps le_rfl⟩

end MarketSandbox
