/-
This file writes the two matching paths of the source out in full, each with its
own loops, comparisons, maps and resting, as `submitBid` and `submitAsk` are
written by hand in the source. Each path is equal to its side's case of the one
definition with the side as a parameter.
-/

import MarketSandbox.Exchange.OrderBook

namespace MarketSandbox

variable {Price : Type} [PriceArithmetic Price]

namespace OrderBook

/-! ### The path of a bid -/

/-- The inner loop of `submitBid`. -/
def bidFillsLevel (order : Order Price) (timestamp : Nat) (levelPrice : Price) :
    List (RestingNode Price) → MatchState Price → List (RestingNode Price) × MatchState Price
  | [], state => ([], state)
  | node :: rest, state =>
    if state.filledQty < order.quantity then
      let remaining := order.quantity - state.filledQty
      let tradeQty := min remaining node.order.quantity
      let reduced := node.order.reduceQuantity tradeQty
      let traded : MatchState Price :=
        { orderIndex := state.orderIndex
          tradeCounter := state.tradeCounter + 1
          filledQty := state.filledQty + tradeQty
          filledNotional := state.filledNotional + (tradeQty : Price) * levelPrice
          events := state.events ++ [.trade {
            tradeId := tradeIdAt state.tradeCounter
            price := levelPrice
            quantity := tradeQty
            aggressorSide := order.side
            aggressorOrderId := order.orderId
            restingOrderId := reduced.orderId
            timestamp := timestamp }] }
      if reduced.quantity = 0 then
        bidFillsLevel order timestamp levelPrice rest
          { traded with orderIndex := Function.update traded.orderIndex reduced.orderId none }
      else
        let later := bidFillsLevel order timestamp levelPrice rest traded
        (⟨node.address, reduced⟩ :: later.1, later.2)
    else (node :: rest, state)

/-- The outer loop of `submitBid`, over the asks. -/
def bidFillsAsks (order : Order Price) (timestamp : Nat) :
    List (Price × List (RestingNode Price)) → MatchState Price →
      List (Price × List (RestingNode Price)) × MatchState Price
  | [], state => ([], state)
  | (levelPrice, level) :: rest, state =>
    if state.filledQty < order.quantity then
      if order.orderType = .limit ∧ levelPrice > order.price then
        ((levelPrice, level) :: rest, state)
      else
        let inner := bidFillsLevel order timestamp levelPrice level state
        let later := bidFillsAsks order timestamp rest inner.2
        if inner.1.isEmpty then later else ((levelPrice, inner.1) :: later.1, later.2)
    else ((levelPrice, level) :: rest, state)

theorem bidFillsLevel_eq (order : Order Price) (timestamp : Nat) (levelPrice : Price)
    (nodes : List (RestingNode Price)) (state : MatchState Price) :
    bidFillsLevel order timestamp levelPrice nodes state =
      matchLevel order timestamp levelPrice nodes state := by
  induction nodes generalizing state with
  | nil => rfl
  | cons node rest inductionHypothesis =>
    simp only [bidFillsLevel, matchLevel, inductionHypothesis]

theorem bidFillsAsks_eq (order : Order Price) (timestamp : Nat)
    (entries : List (Price × List (RestingNode Price))) (state : MatchState Price) :
    bidFillsAsks order timestamp entries state =
      matchLevels .bid order timestamp entries state := by
  induction entries generalizing state with
  | nil => rfl
  | cons entry rest inductionHypothesis =>
    simp only [bidFillsAsks, matchLevels, bidFillsLevel_eq, inductionHypothesis,
      BookSide.beyondLimit]
    rfl

/-- `submitBid`, written out. -/
def bidPath (book : OrderBook Price) (order : Order Price) (timestamp : Nat) : Outcome Price :=
  let loops := bidFillsAsks order timestamp book.asks.entries book.startMatch
  let matched : OrderBook Price :=
    { book with
      asks := book.asks.ofSublist loops.1 (by
        rw [show loops.1 = _ from congrArg Prod.fst (bidFillsAsks_eq _ _ _ _)]
        exact matchLevels_keys _ _ _ _ _)
      orderIndex := loops.2.orderIndex
      tradeCounter := loops.2.tradeCounter }
  let incomingQty := order.quantity
  let filledQty := loops.2.filledQty
  let result : EngineResult Price :=
    { (EngineResult.initial timestamp order.orderId : EngineResult Price) with
      filledQuantity := filledQty
      avgPrice := if filledQty > 0 then loops.2.filledNotional / (filledQty : Price) else 0 }
  if order.orderType = .market then
    let result :=
      if filledQty = incomingQty then { result with status := .filled }
      else
        { result with
          status := .rejected
          rejectionReason := "insufficient liquidity: filled " ++ toString filledQty ++
            " of " ++ toString incomingQty }
    ⟨matched, result,
      loops.2.events ++ [MarketEvent.topOfBook (matched.currentTopOfBook timestamp)]⟩
  else if filledQty = incomingQty then
    ⟨matched, { result with status := .filled },
      loops.2.events ++ [MarketEvent.topOfBook (matched.currentTopOfBook timestamp)]⟩
  else
    let rested := matched.restBid (order.reduceQuantity filledQty)
    ⟨rested, { result with status := if filledQty = 0 then .queued else .partialFill },
      loops.2.events ++ [MarketEvent.topOfBook (rested.currentTopOfBook timestamp)]⟩

theorem bidPath_eq (book : OrderBook Price) (order : Order Price) (timestamp : Nat) :
    book.bidPath order timestamp = book.submitBid order timestamp := by
  simp only [bidPath, bidFillsAsks_eq]
  rfl

/-! ### The path of an ask -/

/-- The inner loop of `submitAsk`. -/
def askFillsLevel (order : Order Price) (timestamp : Nat) (levelPrice : Price) :
    List (RestingNode Price) → MatchState Price → List (RestingNode Price) × MatchState Price
  | [], state => ([], state)
  | node :: rest, state =>
    if state.filledQty < order.quantity then
      let remaining := order.quantity - state.filledQty
      let tradeQty := min remaining node.order.quantity
      let reduced := node.order.reduceQuantity tradeQty
      let traded : MatchState Price :=
        { orderIndex := state.orderIndex
          tradeCounter := state.tradeCounter + 1
          filledQty := state.filledQty + tradeQty
          filledNotional := state.filledNotional + (tradeQty : Price) * levelPrice
          events := state.events ++ [.trade {
            tradeId := tradeIdAt state.tradeCounter
            price := levelPrice
            quantity := tradeQty
            aggressorSide := order.side
            aggressorOrderId := order.orderId
            restingOrderId := reduced.orderId
            timestamp := timestamp }] }
      if reduced.quantity = 0 then
        askFillsLevel order timestamp levelPrice rest
          { traded with orderIndex := Function.update traded.orderIndex reduced.orderId none }
      else
        let later := askFillsLevel order timestamp levelPrice rest traded
        (⟨node.address, reduced⟩ :: later.1, later.2)
    else (node :: rest, state)

/-- The outer loop of `submitAsk`, over the bids. -/
def askFillsBids (order : Order Price) (timestamp : Nat) :
    List (Price × List (RestingNode Price)) → MatchState Price →
      List (Price × List (RestingNode Price)) × MatchState Price
  | [], state => ([], state)
  | (levelPrice, level) :: rest, state =>
    if state.filledQty < order.quantity then
      if order.orderType = .limit ∧ levelPrice < order.price then
        ((levelPrice, level) :: rest, state)
      else
        let inner := askFillsLevel order timestamp levelPrice level state
        let later := askFillsBids order timestamp rest inner.2
        if inner.1.isEmpty then later else ((levelPrice, inner.1) :: later.1, later.2)
    else ((levelPrice, level) :: rest, state)

theorem askFillsLevel_eq (order : Order Price) (timestamp : Nat) (levelPrice : Price)
    (nodes : List (RestingNode Price)) (state : MatchState Price) :
    askFillsLevel order timestamp levelPrice nodes state =
      matchLevel order timestamp levelPrice nodes state := by
  induction nodes generalizing state with
  | nil => rfl
  | cons node rest inductionHypothesis =>
    simp only [askFillsLevel, matchLevel, inductionHypothesis]

theorem askFillsBids_eq (order : Order Price) (timestamp : Nat)
    (entries : List (Price × List (RestingNode Price))) (state : MatchState Price) :
    askFillsBids order timestamp entries state =
      matchLevels .ask order timestamp entries state := by
  induction entries generalizing state with
  | nil => rfl
  | cons entry rest inductionHypothesis =>
    simp only [askFillsBids, matchLevels, askFillsLevel_eq, inductionHypothesis,
      BookSide.beyondLimit]
    rfl

/-- `submitAsk`, written out. -/
def askPath (book : OrderBook Price) (order : Order Price) (timestamp : Nat) : Outcome Price :=
  let loops := askFillsBids order timestamp book.bids.entries book.startMatch
  let matched : OrderBook Price :=
    { book with
      bids := book.bids.ofSublist loops.1 (by
        rw [show loops.1 = _ from congrArg Prod.fst (askFillsBids_eq _ _ _ _)]
        exact matchLevels_keys _ _ _ _ _)
      orderIndex := loops.2.orderIndex
      tradeCounter := loops.2.tradeCounter }
  let incomingQty := order.quantity
  let filledQty := loops.2.filledQty
  let result : EngineResult Price :=
    { (EngineResult.initial timestamp order.orderId : EngineResult Price) with
      filledQuantity := filledQty
      avgPrice := if filledQty > 0 then loops.2.filledNotional / (filledQty : Price) else 0 }
  if order.orderType = .market then
    let result :=
      if filledQty = incomingQty then { result with status := .filled }
      else
        { result with
          status := .rejected
          rejectionReason := "insufficient liquidity: filled " ++ toString filledQty ++
            " of " ++ toString incomingQty }
    ⟨matched, result,
      loops.2.events ++ [MarketEvent.topOfBook (matched.currentTopOfBook timestamp)]⟩
  else if filledQty = incomingQty then
    ⟨matched, { result with status := .filled },
      loops.2.events ++ [MarketEvent.topOfBook (matched.currentTopOfBook timestamp)]⟩
  else
    let rested := matched.restAsk (order.reduceQuantity filledQty)
    ⟨rested, { result with status := if filledQty = 0 then .queued else .partialFill },
      loops.2.events ++ [MarketEvent.topOfBook (rested.currentTopOfBook timestamp)]⟩

theorem askPath_eq (book : OrderBook Price) (order : Order Price) (timestamp : Nat) :
    book.askPath order timestamp = book.submitAsk order timestamp := by
  simp only [askPath, askFillsBids_eq]
  rfl

end OrderBook

end MarketSandbox
