/-
This file models the order book. A side of the book is an ordered map from
prices to price levels, best price first; as in the source, a price finds the
first level that its side's comparison does not put in front of it, so a price
that compares with none finds the first level of all. A level is the list of
its resting orders, each in a list node with an address. The order index holds, for a
resting order's id, the address of its node, as the source holds a list
iterator. The matching loops, resting, cancelling, the top of book and the
depth are here. Matching against asks and against bids is one definition with
the side as a parameter.
-/

import MarketSandbox.Exchange.Entity
import MarketSandbox.Library.SortedMap
import Mathlib.Algebra.Group.Nat.Defs
import Mathlib.Algebra.Ring.Int.Defs
import Mathlib.Order.RelClasses

namespace MarketSandbox

/-! ### Sides -/

/-- The two sides of the book. -/
inductive BookSide
  | bid
  | ask
  deriving DecidableEq, Repr

namespace BookSide

/-- The side an order is submitted to: the source compares with `BID` only. -/
def ofOrder (side : OrderSide) : BookSide :=
  if side = .bid then .bid else .ask

/-- The enumerator stored in an `OrderLocation`. -/
def tag : BookSide → OrderSide
  | .bid => .bid
  | .ask => .ask

/-- The side an order matches against. -/
def opposite : BookSide → BookSide
  | .bid => .ask
  | .ask => .bid

@[simp] theorem opposite_opposite (side : BookSide) : side.opposite.opposite = side := by
  cases side <;> rfl

/-- What holds of a side and of its opposite holds of every side. -/
theorem forall_of_opposite (side : BookSide) {property : BookSide → Prop} (own : property side)
    (opposite : property side.opposite) (other : BookSide) : property other := by
  cases side <;> cases other <;> assumption

@[simp] theorem ofOrder_tag (side : BookSide) : ofOrder side.tag = side := by
  cases side <;> rfl

variable {Price : Type}

section Comparison

variable [LT Price]

/-- The comparison of a side's map: highest bid first, lowest ask first. -/
def before : BookSide → Price → Price → Prop
  | .bid => fun first second => second < first
  | .ask => fun first second => first < second

instance [DecidableLT Price] (side : BookSide) :
    DecidableRel (before side : Price → Price → Prop) :=
  match side with
  | .bid => fun first second => inferInstanceAs (Decidable (second < first))
  | .ask => fun first second => inferInstanceAs (Decidable (first < second))

/-- Whether a level's price is beyond the limit of an order submitted to a side:
`levelPrice > order.getPrice()` for a bid, `levelPrice < order.getPrice()` for an ask. -/
def beyondLimit : BookSide → Price → Price → Prop
  | .bid => fun levelPrice limit => levelPrice > limit
  | .ask => fun levelPrice limit => levelPrice < limit

instance [DecidableLT Price] (side : BookSide) (levelPrice limit : Price) :
    Decidable (side.beyondLimit levelPrice limit) :=
  match side with
  | .bid => inferInstanceAs (Decidable (levelPrice > limit))
  | .ask => inferInstanceAs (Decidable (levelPrice < limit))

/-- The limit check is the comparison of the opposite side's map. -/
theorem beyondLimit_iff (side : BookSide) (levelPrice limit : Price) :
    side.beyondLimit levelPrice limit ↔ side.opposite.before limit levelPrice := by
  cases side <;> exact Iff.rfl

/-- Two prices compare when the comparison of a side decides between them. -/
theorem compares_iff (side : BookSide) (first second : Price) :
    Compares first second ↔
      side.before first second ∨ first = second ∨ side.before second first := by
  cases side with
  | bid => exact or_comm.trans (or_assoc.trans or_left_comm)
  | ask => exact Iff.rfl

end Comparison

instance [PriceOperations Price] (side : BookSide) : IsStrictOrder Price (before side) where
  irrefl price := by
    cases side <;> exact PriceOperations.lt_irrefl price
  trans first second third := by
    cases side with
    | bid => exact fun left right => PriceOperations.lt_trans right left
    | ask => exact fun left right => PriceOperations.lt_trans left right

instance [LinearOrder Price] (side : BookSide) : IsStrictTotalOrder Price (before side) where
  trichotomous first second notBefore notAfter := by
    cases side with
    | bid => exact le_antisymm (not_lt.mp notBefore) (not_lt.mp notAfter)
    | ask => exact le_antisymm (not_lt.mp notAfter) (not_lt.mp notBefore)
  irrefl price := by
    cases side <;> exact lt_irrefl price
  trans first second third := by
    cases side with
    | bid => exact fun left right => lt_trans right left
    | ask => exact fun left right => lt_trans left right

end BookSide

/-! ### State -/

/-- A node of a level's list: its address and the order it holds. -/
structure RestingNode (Price : Type) where
  address : Nat
  order : Order Price
  deriving DecidableEq

/-- `OrderLocation`, with the iterator as the address of the node it points to. -/
structure OrderLocation (Price : Type) where
  side : OrderSide
  price : Price
  it : Nat
  deriving DecidableEq

/-- `OrderBook`. The last two fields are not the book's: `nextNode` is the allocator's next
address for a list node, and `tradeCounter` is the counter of `TradeIdGenerator`. -/
structure OrderBook (Price : Type) [LT Price] where
  bids : SortedMap Price (List (RestingNode Price)) (BookSide.before .bid)
  asks : SortedMap Price (List (RestingNode Price)) (BookSide.before .ask)
  orderIndex : String → Option (OrderLocation Price)
  nextNode : Nat
  tradeCounter : Nat

namespace OrderBook

section Sides

variable {Price : Type} [LT Price]

/-- The book of a new process. -/
def empty : OrderBook Price := ⟨.empty, .empty, fun _ => none, 0, 0⟩

/-- The map of a side. -/
def levels (book : OrderBook Price) :
    (side : BookSide) → SortedMap Price (List (RestingNode Price)) side.before
  | .bid => book.bids
  | .ask => book.asks

/-- Replace the map of a side. -/
def setLevels (book : OrderBook Price) (side : BookSide)
    (map : SortedMap Price (List (RestingNode Price)) side.before) : OrderBook Price :=
  match side with
  | .bid => { book with bids := map }
  | .ask => { book with asks := map }

/-- The nodes resting on a side, best level first and oldest first within a level. -/
def nodes (book : OrderBook Price) (side : BookSide) : List (RestingNode Price) :=
  (book.levels side).concat

/-- The orders resting on a side, best level first and oldest first within a level. -/
def resting (book : OrderBook Price) (side : BookSide) : List (Order Price) :=
  (book.nodes side).map RestingNode.order

/-- The orders resting in the book. -/
def restingOrders (book : OrderBook Price) : List (Order Price) :=
  book.resting .bid ++ book.resting .ask

/-- The ids of the orders resting in the book. -/
def restingIds (book : OrderBook Price) : List String :=
  book.restingOrders.map Order.orderId

variable (book : OrderBook Price) (side : BookSide)
  (map : SortedMap Price (List (RestingNode Price)) side.before)

@[simp] theorem levels_setLevels : (book.setLevels side map).levels side = map := by
  cases side <;> rfl

@[simp] theorem levels_setLevels_opposite :
    (book.setLevels side map).levels side.opposite = book.levels side.opposite := by
  cases side <;> rfl

@[simp] theorem orderIndex_setLevels :
    (book.setLevels side map).orderIndex = book.orderIndex := by
  cases side <;> rfl

@[simp] theorem nextNode_setLevels : (book.setLevels side map).nextNode = book.nextNode := by
  cases side <;> rfl

@[simp] theorem tradeCounter_setLevels :
    (book.setLevels side map).tradeCounter = book.tradeCounter := by
  cases side <;> rfl

end Sides

variable {Price : Type} [PriceOperations Price]

/-! ### Resting -/

/-- `restBid` and `restAsk`: append the order to its price's level and index its node. -/
def rest (book : OrderBook Price) (side : BookSide) (order : Order Price) : OrderBook Price :=
  let node : RestingNode Price := ⟨book.nextNode, order⟩
  { book.setLevels side ((book.levels side).upsert order.price [] (· ++ [node])) with
    orderIndex := Function.update book.orderIndex order.orderId
      (some ⟨side.tag, order.price, book.nextNode⟩)
    nextNode := book.nextNode + 1 }

/-- `restBid`. -/
def restBid (book : OrderBook Price) (order : Order Price) : OrderBook Price :=
  book.rest .bid order

/-- `restAsk`. -/
def restAsk (book : OrderBook Price) (order : Order Price) : OrderBook Price :=
  book.rest .ask order

/-! ### Market data -/

/-- The total quantity resting in a level. -/
def levelQuantity (level : List (RestingNode Price)) : Int :=
  (level.map fun node => node.order.quantity).sum

/-- `currentTopOfBook`. -/
def currentTopOfBook (book : OrderBook Price) (timestamp : Nat) : TopOfBook Price where
  bidPrice := book.bids.entries.head?.map Prod.fst
  bidQuantity := book.bids.entries.head?.map fun entry => levelQuantity entry.2
  askPrice := book.asks.entries.head?.map Prod.fst
  askQuantity := book.asks.entries.head?.map fun entry => levelQuantity entry.2
  timestamp := timestamp

/-- One price level of `depth`; the order count is cast to `uint32_t`. -/
def depthLevel (entry : Price × List (RestingNode Price)) : DepthLevel Price where
  price := entry.1
  quantity := levelQuantity entry.2
  orders := entry.2.length % 2 ^ 32

/-- `depth`. -/
def depth (book : OrderBook Price) (levels : Nat) : BookDepth Price where
  bids := (book.bids.entries.take levels).map depthLevel
  asks := (book.asks.entries.take levels).map depthLevel

/-! ### Matching -/

/-- What the matching loops change besides the levels. -/
structure MatchState (Price : Type) where
  orderIndex : String → Option (OrderLocation Price)
  tradeCounter : Nat
  filledQty : Int
  filledNotional : Price
  events : List (MarketEvent Price)

/-- The inner loop: fill the resting orders of one level, oldest first. -/
def matchLevel (order : Order Price) (timestamp : Nat) (levelPrice : Price) :
    List (RestingNode Price) → MatchState Price → List (RestingNode Price) × MatchState Price
  | [], state => ([], state)
  | node :: rest, state =>
    if state.filledQty < order.quantity then
      let remaining := order.quantity - state.filledQty
      let tradeQty := min remaining node.order.quantity
      let reduced := node.order.reduceQuantity tradeQty
      let traded : MatchState Price :=
        { orderIndex := state.orderIndex
          tradeCounter := state.tradeCounter + 1
          filledQty := state.filledQty + tradeQty
          filledNotional := state.filledNotional + (tradeQty : Price) * levelPrice
          events := state.events ++ [.trade {
            tradeId := tradeIdAt state.tradeCounter
            price := levelPrice
            quantity := tradeQty
            aggressorSide := order.side
            aggressorOrderId := order.orderId
            restingOrderId := reduced.orderId
            timestamp := timestamp }] }
      if reduced.quantity = 0 then
        matchLevel order timestamp levelPrice rest
          { traded with orderIndex := Function.update traded.orderIndex reduced.orderId none }
      else
        let later := matchLevel order timestamp levelPrice rest traded
        (⟨node.address, reduced⟩ :: later.1, later.2)
    else (node :: rest, state)

/-- The outer loop: walk the levels of the opposite side, best price first. -/
def matchLevels (side : BookSide) (order : Order Price) (timestamp : Nat) :
    List (Price × List (RestingNode Price)) → MatchState Price →
      List (Price × List (RestingNode Price)) × MatchState Price
  | [], state => ([], state)
  | (levelPrice, level) :: rest, state =>
    if state.filledQty < order.quantity then
      if order.orderType = .limit ∧ side.beyondLimit levelPrice order.price then
        ((levelPrice, level) :: rest, state)
      else
        let inner := matchLevel order timestamp levelPrice level state
        let later := matchLevels side order timestamp rest inner.2
        if inner.1.isEmpty then later else ((levelPrice, inner.1) :: later.1, later.2)
    else ((levelPrice, level) :: rest, state)

theorem matchLevels_keys (side : BookSide) (order : Order Price) (timestamp : Nat)
    (entries : List (Price × List (RestingNode Price))) (state : MatchState Price) :
    ((matchLevels side order timestamp entries state).1.map Prod.fst).Sublist
      (entries.map Prod.fst) := by
  induction entries generalizing state with
  | nil => exact .slnil
  | cons entry rest inductionHypothesis =>
    obtain ⟨levelPrice, level⟩ := entry
    rw [matchLevels]
    split_ifs with wanting beyond
    · exact .refl _
    · simp only
      split_ifs
      · exact (inductionHypothesis _).cons _
      · exact (inductionHypothesis _).cons_cons _
    · exact .refl _

/-! ### Operations -/

/-- What an operation does: the book it leaves, its result, and the events it appends. -/
structure Outcome (Price : Type) [LT Price] where
  book : OrderBook Price
  result : EngineResult Price
  events : List (MarketEvent Price)

/-- The state of the matching loops before the first level. -/
def startMatch (book : OrderBook Price) : MatchState Price where
  orderIndex := book.orderIndex
  tradeCounter := book.tradeCounter
  filledQty := 0
  filledNotional := 0
  events := []

/-- The book after matching, before the remainder rests. -/
def matched (book : OrderBook Price) (side : BookSide) (order : Order Price) (timestamp : Nat) :
    OrderBook Price :=
  let loops := matchLevels side order timestamp (book.levels side.opposite).entries book.startMatch
  { book.setLevels side.opposite
      ((book.levels side.opposite).ofSublist loops.1 (matchLevels_keys _ _ _ _ _)) with
    orderIndex := loops.2.orderIndex
    tradeCounter := loops.2.tradeCounter }

/-- `submitBid` and `submitAsk` from the end of the loops on. -/
def conclude (book : OrderBook Price) (side : BookSide) (order : Order Price) (timestamp : Nat)
    (state : MatchState Price) : Outcome Price :=
  let incomingQty := order.quantity
  let result : EngineResult Price :=
    { (EngineResult.initial timestamp order.orderId : EngineResult Price) with
      filledQuantity := state.filledQty
      avgPrice := if state.filledQty > 0 then
        state.filledNotional / (state.filledQty : Price) else 0 }
  if order.orderType = .market then
    let result :=
      if state.filledQty = incomingQty then { result with status := .filled }
      else
        { result with
          status := .rejected
          rejectionReason := "insufficient liquidity: filled " ++ toString state.filledQty ++
            " of " ++ toString incomingQty }
    ⟨book, result, state.events ++ [MarketEvent.topOfBook (book.currentTopOfBook timestamp)]⟩
  else if state.filledQty = incomingQty then
    ⟨book, { result with status := .filled },
      state.events ++ [MarketEvent.topOfBook (book.currentTopOfBook timestamp)]⟩
  else
    let rested := book.rest side (order.reduceQuantity state.filledQty)
    ⟨rested, { result with status := if state.filledQty = 0 then .queued else .partialFill },
      state.events ++ [MarketEvent.topOfBook (rested.currentTopOfBook timestamp)]⟩

/-- `submitBid` and `submitAsk`. -/
def submitTo (book : OrderBook Price) (side : BookSide) (order : Order Price) (timestamp : Nat) :
    Outcome Price :=
  (book.matched side order timestamp).conclude side order timestamp
    (matchLevels side order timestamp (book.levels side.opposite).entries book.startMatch).2

/-- `submitBid`. -/
def submitBid (book : OrderBook Price) (order : Order Price) (timestamp : Nat) : Outcome Price :=
  book.submitTo .bid order timestamp

/-- `submitAsk`. -/
def submitAsk (book : OrderBook Price) (order : Order Price) (timestamp : Nat) : Outcome Price :=
  book.submitTo .ask order timestamp

/-- `submit`. -/
def submit (book : OrderBook Price) (order : Order Price) (timestamp : Nat) : Outcome Price :=
  if order.side = .bid then book.submitBid order timestamp else book.submitAsk order timestamp

theorem submit_eq (book : OrderBook Price) (order : Order Price) (timestamp : Nat) :
    book.submit order timestamp = book.submitTo (BookSide.ofOrder order.side) order timestamp := by
  unfold submit BookSide.ofOrder
  split <;> rfl

/-- Erase the node at an address from a level; an iterator that points to no node of the
level is undefined behaviour. -/
def eraseNode (it : Nat) (level : List (RestingNode Price)) :
    Option (List (RestingNode Price)) :=
  if level.any fun node => node.address = it then
    some (level.filter fun node => node.address ≠ it)
  else none

/-- Erase the indexed node from a side, and its level if it was the last; undefined when the
level or the node is missing. -/
def eraseResting (book : OrderBook Price) (side : BookSide) (location : OrderLocation Price) :
    Option (OrderBook Price) := do
  let level ← (book.levels side).find location.price
  let erased ← eraseNode location.it level
  some (book.setLevels side (if erased.isEmpty then (book.levels side).erase location.price
    else (book.levels side).set location.price erased))

/-- `cancel`; `none` is undefined behaviour. -/
def cancel (book : OrderBook Price) (orderId : String) (timestamp : Nat) :
    Option (Outcome Price) :=
  match book.orderIndex orderId with
  | none =>
    some ⟨book, { (EngineResult.initial timestamp orderId : EngineResult Price) with
      rejectionReason := "order not found: " ++ orderId }, []⟩
  | some location => do
    let erased ← book.eraseResting (BookSide.ofOrder location.side) location
    let book := { erased with orderIndex := Function.update erased.orderIndex orderId none }
    some ⟨book, { (EngineResult.initial timestamp orderId : EngineResult Price) with
        cancelSuccessful := true },
      [.topOfBook (book.currentTopOfBook timestamp)]⟩

end OrderBook

end MarketSandbox
