/-
This file proves that the two matching paths are mirror images. The mirror of a
book has its sides swapped and its prices negated. A submit, a rest and a cancel
of the mirrored request on the mirrored book do the mirror of what the original
does, events and result included, so a mirrored run is a run. What is asked of
negation is what an ordered field gives, and no more than rounded prices keep:
it reverses the order and goes through sums, products and quotients.
-/

import MarketSandbox.Exchange.Paths
import MarketSandbox.Exchange.Run
import Mathlib.Algebra.Order.Group.Defs
import Mathlib.Algebra.Order.Ring.Rat
import Mathlib.Algebra.Ring.Basic

namespace MarketSandbox

variable {Price : Type}

/-! ### Negated prices -/

/-- Prices that can be negated. -/
class MirrorPrice (Price : Type) extends PriceArithmetic Price, Neg Price where
  neg_lt (first second : Price) : -first < -second ↔ second < first
  neg_zero : -(0 : Price) = 0
  neg_add (first second : Price) : -first + -second = -(first + second)
  mul_neg (first second : Price) : first * -second = -(first * second)
  neg_div (first second : Price) : -first / second = -(first / second)

/-- Exact prices can be negated. -/
instance (priority := low) mirrorPriceOfField (Price : Type) [Field Price] [LinearOrder Price]
    [IsOrderedAddMonoid Price] : MirrorPrice Price where
  toPriceArithmetic := .ofField Price
  neg_lt _ _ := neg_lt_neg_iff
  neg_zero := neg_zero
  neg_add first second := (neg_add first second).symm
  mul_neg := mul_neg
  neg_div first second := neg_div second first

/-! ### Mirrors -/

/-- Swap `BID` and `ASK`; the book takes every other value for an ask. -/
def OrderSide.mirror : OrderSide → OrderSide
  | .bid => .ask
  | _ => .bid

theorem BookSide.ofOrder_mirror (side : OrderSide) :
    BookSide.ofOrder side.mirror = (BookSide.ofOrder side).opposite := by
  cases side <;> rfl

theorem BookSide.tag_mirror (side : BookSide) : side.tag.mirror = side.opposite.tag := by
  cases side <;> rfl

section Mirrors

variable [Neg Price]

/-- The order on the other side at the negated price. -/
def Order.mirror (order : Order Price) : Order Price :=
  { order with side := order.side.mirror, price := -order.price }

/-- A node with its order mirrored. -/
def RestingNode.mirror (node : RestingNode Price) : RestingNode Price :=
  ⟨node.address, node.order.mirror⟩

/-- The location of the mirrored order. -/
def OrderLocation.mirror (location : OrderLocation Price) : OrderLocation Price :=
  ⟨location.side.mirror, -location.price, location.it⟩

/-- A trade with its price negated and the aggressor's side swapped. -/
def Trade.mirror (trade : Trade Price) : Trade Price :=
  { trade with price := -trade.price, aggressorSide := trade.aggressorSide.mirror }

/-- A top of book with its sides swapped and its prices negated. -/
def TopOfBook.mirror (top : TopOfBook Price) : TopOfBook Price where
  bidPrice := top.askPrice.map Neg.neg
  bidQuantity := top.askQuantity
  askPrice := top.bidPrice.map Neg.neg
  askQuantity := top.bidQuantity
  timestamp := top.timestamp

/-- A mirrored event. -/
def MarketEvent.mirror : MarketEvent Price → MarketEvent Price
  | .monostate => .monostate
  | .trade executed => .trade executed.mirror
  | .topOfBook top => .topOfBook top.mirror

/-- A result with its average price negated. -/
def EngineResult.mirror (result : EngineResult Price) : EngineResult Price :=
  { result with avgPrice := -result.avgPrice }

/-- The mirrored request. -/
def Operation.mirror : Operation Price → Operation Price
  | .submit order => .submit order.mirror
  | .cancel orderId nodeId => .cancel orderId nodeId

/-- A level with its price negated and its orders mirrored. -/
def mirrorLevel : Price × List (RestingNode Price) → Price × List (RestingNode Price) :=
  Prod.map Neg.neg (List.map RestingNode.mirror)

theorem mirrorLevel_mk (price : Price) (level : List (RestingNode Price)) :
    mirrorLevel (price, level) = (-price, level.map RestingNode.mirror) := rfl

end Mirrors

section Sides

variable [MirrorPrice Price]

/-- Negation embeds a side's order of prices into the other side's. -/
def negation (side : BookSide) :
    (side.before : Price → Price → Prop) ↪r (side.opposite.before : Price → Price → Prop) :=
  RelEmbedding.ofMonotone Neg.neg fun first second before => by
    cases side with
    | bid => exact (MirrorPrice.neg_lt first second).mpr before
    | ask => exact (MirrorPrice.neg_lt second first).mpr before

/-- The limit check is mirrored by the other side's. -/
theorem BookSide.beyondLimit_mirror (side : BookSide) (levelPrice limit : Price) :
    side.opposite.beyondLimit (-levelPrice) (-limit) ↔ side.beyondLimit levelPrice limit := by
  cases side with
  | bid => exact MirrorPrice.neg_lt levelPrice limit
  | ask => exact MirrorPrice.neg_lt limit levelPrice

namespace OrderBook

/-- The book with its sides swapped and its prices negated. -/
def mirror (book : OrderBook Price) : OrderBook Price where
  bids := book.asks.rename (negation .ask) (List.map RestingNode.mirror)
  asks := book.bids.rename (negation .bid) (List.map RestingNode.mirror)
  orderIndex orderId := (book.orderIndex orderId).map OrderLocation.mirror
  nextNode := book.nextNode
  tradeCounter := book.tradeCounter

/-- A mirrored outcome. -/
def Outcome.mirror (outcome : Outcome Price) : Outcome Price :=
  ⟨outcome.book.mirror, outcome.result.mirror, outcome.events.map MarketEvent.mirror⟩

/-- A mirrored state of the matching loops. -/
def MatchState.mirror (state : MatchState Price) : MatchState Price :=
  { orderIndex := fun orderId => (state.orderIndex orderId).map OrderLocation.mirror
    tradeCounter := state.tradeCounter
    filledQty := state.filledQty
    filledNotional := -state.filledNotional
    events := state.events.map MarketEvent.mirror }

/-- Books with the same entries, index and counters are the same book. -/
theorem ext_entries {first second : OrderBook Price}
    (bids : first.bids.entries = second.bids.entries)
    (asks : first.asks.entries = second.asks.entries)
    (orderIndex : first.orderIndex = second.orderIndex)
    (nextNode : first.nextNode = second.nextNode)
    (tradeCounter : first.tradeCounter = second.tradeCounter) : first = second := by
  obtain ⟨⟨_, _⟩, ⟨_, _⟩, _, _, _⟩ := first
  obtain ⟨⟨_, _⟩, ⟨_, _⟩, _, _, _⟩ := second
  cases bids
  cases asks
  cases orderIndex
  cases nextNode
  cases tradeCounter
  rfl

/-- The index of a mirrored book is updated with mirrored locations. -/
theorem update_mirror (index : String → Option (OrderLocation Price)) (orderId : String)
    (location : Option (OrderLocation Price)) :
    Function.update (fun other => (index other).map OrderLocation.mirror) orderId
        (location.map OrderLocation.mirror) =
      fun other => (Function.update index orderId location other).map OrderLocation.mirror := by
  funext other
  by_cases same : other = orderId
  · subst same
    rw [Function.update_self, Function.update_self]
  · rw [Function.update_of_ne same, Function.update_of_ne same]

/-! ### Matching -/

theorem MatchState.trade_mirror (state : MatchState Price) (order : Order Price) (timestamp : Nat)
    (levelPrice : Price) (node : RestingNode Price) :
    state.mirror.trade order.mirror timestamp (-levelPrice) node.mirror =
      (state.trade order timestamp levelPrice node).mirror := by
  simp only [trade, mirror, MirrorPrice.mul_neg, MirrorPrice.neg_add, List.map_append]
  rfl

theorem MatchState.forget_mirror (state : MatchState Price) (orderId : String) :
    state.mirror.forget orderId = (state.forget orderId).mirror := by
  simp only [forget, mirror, ← update_mirror, Option.map_none]

theorem matchLevel_mirror (order : Order Price) (timestamp : Nat) (levelPrice : Price)
    (nodes : List (RestingNode Price)) (state : MatchState Price) :
    matchLevel order.mirror timestamp (-levelPrice) (nodes.map RestingNode.mirror) state.mirror =
      ((matchLevel order timestamp levelPrice nodes state).1.map RestingNode.mirror,
        (matchLevel order timestamp levelPrice nodes state).2.mirror) := by
  induction nodes generalizing state with
  | nil => rfl
  | cons node rest inductionHypothesis =>
    rw [List.map_cons]
    by_cases wanting : state.filledQty < order.quantity
    · by_cases emptied : node.order.quantity - state.tradeQty order node = 0
      · rw [matchLevel_fills order timestamp levelPrice node rest state wanting emptied,
          matchLevel_fills order.mirror timestamp _ node.mirror _ state.mirror wanting emptied,
          MatchState.trade_mirror, MatchState.forget_mirror]
        exact inductionHypothesis _
      · rw [matchLevel_reduces order timestamp levelPrice node rest state wanting emptied,
          matchLevel_reduces order.mirror timestamp _ node.mirror _ state.mirror wanting emptied,
          MatchState.trade_mirror, inductionHypothesis]
        rfl
    · rw [matchLevel_stops order timestamp levelPrice node rest state wanting,
        matchLevel_stops order.mirror timestamp _ node.mirror _ state.mirror wanting]
      rfl

theorem matchLevels_mirror (side : BookSide) (order : Order Price) (timestamp : Nat)
    (entries : List (Price × List (RestingNode Price))) (state : MatchState Price) :
    matchLevels side.opposite order.mirror timestamp (entries.map mirrorLevel) state.mirror =
      ((matchLevels side order timestamp entries state).1.map mirrorLevel,
        (matchLevels side order timestamp entries state).2.mirror) := by
  induction entries generalizing state with
  | nil => rfl
  | cons entry rest inductionHypothesis =>
    obtain ⟨levelPrice, level⟩ := entry
    have inner := matchLevel_mirror order timestamp levelPrice level state
    rw [List.map_cons, mirrorLevel_mk, matchLevels, matchLevels]
    by_cases wanting : state.filledQty < order.quantity
    · rw [if_pos wanting, if_pos (show state.mirror.filledQty < order.mirror.quantity from wanting)]
      by_cases beyond : order.orderType = .limit ∧ side.beyondLimit levelPrice order.price
      · rw [if_pos beyond, if_pos (show order.mirror.orderType = .limit ∧
          side.opposite.beyondLimit (-levelPrice) order.mirror.price from
            ⟨beyond.1, (side.beyondLimit_mirror _ _).mpr beyond.2⟩)]
        rfl
      · rw [if_neg beyond, if_neg (show ¬ (order.mirror.orderType = .limit ∧
          side.opposite.beyondLimit (-levelPrice) order.mirror.price) from fun other =>
            beyond ⟨other.1, (side.beyondLimit_mirror _ _).mp other.2⟩)]
        simp only [inner, inductionHypothesis, List.isEmpty_map]
        split_ifs <;> rfl
    · rw [if_neg wanting,
        if_neg (show ¬ state.mirror.filledQty < order.mirror.quantity from wanting)]
      rfl

theorem startMatch_mirror (book : OrderBook Price) :
    book.startMatch.mirror = book.mirror.startMatch := by
  rw [MatchState.mirror, startMatch]
  simp only [MirrorPrice.neg_zero]
  rfl

theorem matched_mirror (book : OrderBook Price) (side : BookSide) (order : Order Price)
    (timestamp : Nat) :
    book.mirror.matched side.opposite order.mirror timestamp =
      (book.matched side order timestamp).mirror := by
  have loops := matchLevels_mirror side order timestamp (book.levels side.opposite).entries
    book.startMatch
  rw [startMatch_mirror] at loops
  cases side with
  | bid =>
    refine ext_entries (congrArg Prod.fst loops) rfl ?_ rfl ?_
    · exact congrArg (fun result => result.2.orderIndex) loops
    · exact congrArg (fun result => result.2.tradeCounter) loops
  | ask =>
    refine ext_entries rfl (congrArg Prod.fst loops) ?_ rfl ?_
    · exact congrArg (fun result => result.2.orderIndex) loops
    · exact congrArg (fun result => result.2.tradeCounter) loops

/-! ### The other operations -/

theorem rest_mirror (book : OrderBook Price) (side : BookSide) (order : Order Price) :
    book.mirror.rest side.opposite order.mirror = (book.rest side order).mirror := by
  have level := (book.levels side).upsert_rename (negation side) (List.map RestingNode.mirror)
    order.price [] (· ++ [⟨book.nextNode, order⟩])
    (· ++ [RestingNode.mirror ⟨book.nextNode, order⟩]) fun level => by
      rw [List.map_append, List.map_singleton]
  have index := update_mirror book.orderIndex order.orderId
    (some ⟨side.tag, order.price, book.nextNode⟩)
  rw [Option.map_some, OrderLocation.mirror, BookSide.tag_mirror] at index
  cases side with
  | bid => exact ext_entries rfl (congrArg SortedMap.entries level) index rfl rfl
  | ask => exact ext_entries (congrArg SortedMap.entries level) rfl index rfl rfl

theorem levelQuantity_mirror (level : List (RestingNode Price)) :
    levelQuantity (level.map RestingNode.mirror) = levelQuantity level := by
  rw [levelQuantity, List.map_map]
  rfl

theorem currentTopOfBook_mirror (book : OrderBook Price) (timestamp : Nat) :
    book.mirror.currentTopOfBook timestamp = (book.currentTopOfBook timestamp).mirror := by
  simp only [currentTopOfBook, mirror, TopOfBook.mirror, SortedMap.rename, List.head?_map,
    Option.map_map, Function.comp_def, Prod.map_fst, Prod.map_snd, levelQuantity_mirror]
  rfl

theorem conclude_mirror (book : OrderBook Price) (side : BookSide) (order : Order Price)
    (timestamp : Nat) (state : MatchState Price) :
    book.mirror.conclude side.opposite order.mirror timestamp state.mirror =
      (book.conclude side order timestamp state).mirror := by
  have average : (if state.filledQty > 0 then
      -state.filledNotional / (state.filledQty : Price) else 0) =
        -(if state.filledQty > 0 then state.filledNotional / (state.filledQty : Price) else 0) := by
    split_ifs
    · exact MirrorPrice.neg_div _ _
    · exact MirrorPrice.neg_zero.symm
  have rested := book.rest_mirror side (order.reduceQuantity state.filledQty)
  have reduced : (order.reduceQuantity state.filledQty).mirror =
      order.mirror.reduceQuantity state.filledQty := rfl
  have quantity : order.mirror.quantity = order.quantity := rfl
  have orderType : order.mirror.orderType = order.orderType := rfl
  have filled : state.mirror.filledQty = state.filledQty := rfl
  have notional : state.mirror.filledNotional = -state.filledNotional := rfl
  have events : state.mirror.events = state.events.map MarketEvent.mirror := rfl
  simp only [conclude, quantity, orderType, filled, notional, events, average, ← reduced, rested,
    currentTopOfBook_mirror]
  split_ifs <;> simp only [Outcome.mirror, List.map_append] <;> rfl

theorem submitTo_mirror (book : OrderBook Price) (side : BookSide) (order : Order Price)
    (timestamp : Nat) :
    book.mirror.submitTo side.opposite order.mirror timestamp =
      (book.submitTo side order timestamp).mirror := by
  have loops := matchLevels_mirror side order timestamp (book.levels side.opposite).entries
    book.startMatch
  have levels : (book.mirror.levels side.opposite.opposite).entries =
      (book.levels side.opposite).entries.map mirrorLevel := by
    cases side <;> rfl
  rw [submitTo, levels, ← startMatch_mirror, loops, matched_mirror, conclude_mirror, submitTo]

theorem submit_mirror (book : OrderBook Price) (order : Order Price) (timestamp : Nat) :
    book.mirror.submit order.mirror timestamp = (book.submit order timestamp).mirror := by
  rw [submit_eq, submit_eq, show order.mirror.side = order.side.mirror from rfl,
    BookSide.ofOrder_mirror, submitTo_mirror]

theorem eraseNode_mirror (it : Nat) (level : List (RestingNode Price)) :
    eraseNode it (level.map RestingNode.mirror) =
      (eraseNode it level).map (List.map RestingNode.mirror) := by
  have anyNode : ((level.map RestingNode.mirror).any fun node => node.address = it) =
      level.any fun node => node.address = it := List.any_map
  have others : ((level.map RestingNode.mirror).filter fun node => node.address ≠ it) =
      (level.filter fun node => node.address ≠ it).map RestingNode.mirror := List.filter_map
  rw [eraseNode, eraseNode, anyNode, others]
  split_ifs <;> rfl

theorem eraseResting_mirror (book : OrderBook Price) (side : BookSide)
    (location : OrderLocation Price) :
    book.mirror.eraseResting side.opposite location.mirror =
      (book.eraseResting side location).map mirror := by
  have levels : book.mirror.levels side.opposite =
      (book.levels side).rename (negation side) (List.map RestingNode.mirror) := by
    cases side <;> rfl
  have price : location.mirror.price = negation side location.price := rfl
  have it : location.mirror.it = location.it := rfl
  have replaced : ∀ map : SortedMap Price (List (RestingNode Price)) side.before,
      book.mirror.setLevels side.opposite
        (map.rename (negation side) (List.map RestingNode.mirror)) =
          (book.setLevels side map).mirror := by
    intro map
    cases side <;> rfl
  rw [eraseResting, eraseResting, levels, price, it, SortedMap.find_rename]
  cases (book.levels side).find location.price with
  | none => rfl
  | some level =>
    simp only [Option.map_some, Option.bind_eq_bind, Option.bind_some, eraseNode_mirror]
    cases eraseNode location.it level with
    | none => rfl
    | some erased =>
      simp only [Option.map_some, Option.bind_some, List.isEmpty_map, SortedMap.erase_rename,
        SortedMap.set_rename, ← replaced]
      split_ifs <;> rfl

theorem cancel_mirror (book : OrderBook Price) (orderId : String) (timestamp : Nat) :
    book.mirror.cancel orderId timestamp = (book.cancel orderId timestamp).map Outcome.mirror := by
  have indexed : book.mirror.orderIndex orderId =
      (book.orderIndex orderId).map OrderLocation.mirror := rfl
  rw [cancel, cancel, indexed]
  cases book.orderIndex orderId with
  | none =>
    simp only [Option.map_none, Option.map_some, Outcome.mirror, EngineResult.mirror,
      EngineResult.initial, MirrorPrice.neg_zero, List.map_nil]
  | some location =>
    have side : BookSide.ofOrder location.mirror.side =
        (BookSide.ofOrder location.side).opposite := BookSide.ofOrder_mirror _
    simp only [Option.map_some, side, eraseResting_mirror, Option.bind_eq_bind]
    cases book.eraseResting (BookSide.ofOrder location.side) location with
    | none => rfl
    | some erased =>
      have unindexed : ({ erased.mirror with
          orderIndex := Function.update erased.mirror.orderIndex orderId none } :
            OrderBook Price) =
          ({ erased with orderIndex := Function.update erased.orderIndex orderId none } :
            OrderBook Price).mirror := by
        refine ext_entries rfl rfl ?_ rfl rfl
        exact update_mirror erased.orderIndex orderId none
      simp only [Option.map_some, Option.bind_some, unindexed, currentTopOfBook_mirror,
        Outcome.mirror, EngineResult.mirror, EngineResult.initial, MirrorPrice.neg_zero]
      rfl

theorem perform_mirror (book : OrderBook Price) (timestamp : Nat) (operation : Operation Price) :
    book.mirror.perform timestamp operation.mirror =
      (book.perform timestamp operation).map Outcome.mirror := by
  cases operation with
  | submit order => exact congrArg some (submit_mirror book order timestamp)
  | cancel orderId nodeId => exact cancel_mirror book orderId timestamp

end OrderBook

/-! ### Mirrored runs -/

/-- The mirror of a step. -/
def Record.mirror (record : Record Price) : Record Price where
  operation := record.operation.mirror
  timestamp := record.timestamp
  before := record.before.mirror
  result := record.result.mirror
  events := record.events.map MarketEvent.mirror
  after := record.after.mirror

theorem step_mirror {source target : OrderBook Price} {record : Record Price}
    (step : (bookSystem Price).step source record target) :
    (bookSystem Price).step source.mirror record.mirror target.mirror := by
  obtain ⟨rfl, rfl, performed⟩ := step
  refine ⟨rfl, rfl, ?_⟩
  have mirrored := record.before.perform_mirror record.timestamp record.operation
  rw [performed] at mirrored
  exact mirrored

theorem mirror_empty : (OrderBook.empty : OrderBook Price).mirror = .empty := rfl

theorem run_mirror {records : List (Record Price)} {book : OrderBook Price}
    (run : BookRun records book) : BookRun (records.map Record.mirror) book.mirror := by
  induction run with
  | start initial =>
    obtain rfl := initial
    exact .start mirror_empty
  | next before step inductionHypothesis =>
    rw [List.map_append, List.map_singleton]
    exact inductionHypothesis.next (step_mirror step)

/-- On every reached book the path of an ask does with a mirrored bid the mirror of what the
path of a bid does, and every run has its mirrored run. -/
theorem paths_mirror {records : List (Record Price)} {book : OrderBook Price}
    (run : BookRun records book) :
    (∀ order timestamp, order.side = .bid →
      book.mirror.askPath order.mirror timestamp = (book.bidPath order timestamp).mirror) ∧
    BookRun (records.map Record.mirror) book.mirror := by
  refine ⟨fun order timestamp _ => ?_, run_mirror run⟩
  rw [OrderBook.askPath_eq, OrderBook.bidPath_eq]
  exact book.submitTo_mirror .bid order timestamp

end Sides

theorem paths_mirror_sample : BookRun (Sample.records.map (@Record.mirror ℚ _))
    (@OrderBook.mirror ℚ _ Sample.withdrawal.after) :=
  (@paths_mirror ℚ _ _ _ Sample.run).2

end MarketSandbox
