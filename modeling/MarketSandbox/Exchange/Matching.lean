/-
This file proves that the two matching loops fill greedily. Over nodes with
positive quantities, the inner loop is the greedy fill of one level and the
outer loop is the greedy fill of the levels that the limit does not block, one
list from the best level's oldest order on. Both the nodes left and everything
else the loops change are given by the greedy fill, so later files never
unfold the loops.
-/

import MarketSandbox.Exchange.OrderBook
import MarketSandbox.Library.GreedyFill

namespace MarketSandbox

open GreedyFill

variable {Price : Type}

/-! ### Resting nodes as fillable items -/

/-- The quantity a node can give. -/
def nodeQuantity (node : RestingNode Price) : Int := node.order.quantity

/-- A node after giving an amount. -/
def reduceNode (node : RestingNode Price) (amount : Int) : RestingNode Price :=
  ⟨node.address, node.order.reduceQuantity amount⟩

theorem nodeQuantity_reduceNode (node : RestingNode Price) (amount : Int) :
    nodeQuantity (reduceNode node amount) = nodeQuantity node - amount := rfl

/-- The id of the order a node holds. -/
def RestingNode.orderId (node : RestingNode Price) : String := node.order.orderId

/-- The trades of an incoming order's fills, with trade ids from a counter on. -/
def fillTrades (order : Order Price) (timestamp : Nat) :
    Nat → List (Order Price × Int) → List (Trade Price)
  | _, [] => []
  | counter, (resting, amount) :: rest =>
    { tradeId := tradeIdAt counter
      price := resting.price
      quantity := amount
      aggressorSide := order.side
      aggressorOrderId := order.orderId
      restingOrderId := resting.orderId
      timestamp := timestamp } :: fillTrades order timestamp (counter + 1) rest

theorem fillTrades_append (order : Order Price) (timestamp counter : Nat)
    (front back : List (Order Price × Int)) :
    fillTrades order timestamp counter (front ++ back) =
      fillTrades order timestamp counter front ++
        fillTrades order timestamp (counter + front.length) back := by
  induction front generalizing counter with
  | nil => rfl
  | cons fill rest inductionHypothesis =>
    rw [List.cons_append, fillTrades, fillTrades, inductionHypothesis, List.cons_append,
      List.length_cons, Nat.add_assoc, Nat.add_comm 1]

theorem fillTrades_quantity (order : Order Price) (timestamp counter : Nat)
    (fills : List (Order Price × Int)) :
    (fillTrades order timestamp counter fills).map Trade.quantity = fills.map Prod.snd := by
  induction fills generalizing counter with
  | nil => rfl
  | cons fill rest inductionHypothesis =>
    rw [fillTrades, List.map_cons, List.map_cons, inductionHypothesis]

theorem fillTrades_price (order : Order Price) (timestamp counter : Nat)
    (fills : List (Order Price × Int)) :
    (fillTrades order timestamp counter fills).map Trade.price =
      fills.map fun fill => fill.1.price := by
  induction fills generalizing counter with
  | nil => rfl
  | cons fill rest inductionHypothesis =>
    rw [fillTrades, List.map_cons, List.map_cons, inductionHypothesis]

theorem fillTrades_resting (order : Order Price) (timestamp counter : Nat)
    (fills : List (Order Price × Int)) :
    (fillTrades order timestamp counter fills).map Trade.restingOrderId =
      (fills.map Prod.fst).map Order.orderId := by
  induction fills generalizing counter with
  | nil => rfl
  | cons fill rest inductionHypothesis =>
    rw [fillTrades, List.map_cons, List.map_cons, List.map_cons, inductionHypothesis]

theorem fillTrades_aggressor (order : Order Price) (timestamp counter : Nat)
    (fills : List (Order Price × Int)) :
    ∀ trade ∈ fillTrades order timestamp counter fills, trade.aggressorOrderId = order.orderId := by
  induction fills generalizing counter with
  | nil => exact fun _ member => nomatch member
  | cons fill rest inductionHypothesis =>
    intro trade member
    rcases List.mem_cons.mp member with rfl | inRest
    · rfl
    · exact inductionHypothesis _ trade inRest

/-- A trade carries its aggressor's side, and the id and the price of the order it fills. -/
theorem fillTrades_named (order : Order Price) (timestamp counter : Nat)
    (fills : List (Order Price × Int)) :
    ∀ trade ∈ fillTrades order timestamp counter fills, trade.aggressorSide = order.side ∧
      ∃ fill ∈ fills, trade.restingOrderId = fill.1.orderId ∧ trade.price = fill.1.price := by
  induction fills generalizing counter with
  | nil => exact fun _ member => nomatch member
  | cons fill rest inductionHypothesis =>
    intro trade member
    rcases List.mem_cons.mp member with rfl | inRest
    · exact ⟨rfl, fill, List.mem_cons_self, rfl, rfl⟩
    · obtain ⟨isSide, other, inFills, named⟩ := inductionHypothesis _ trade inRest
      exact ⟨isSide, other, List.mem_cons_of_mem _ inFills, named⟩

/-- The fills of a list of nodes, by order. -/
def nodeFills (wanted : Int) (nodes : List (RestingNode Price)) : List (Order Price × Int) :=
  (fills nodeQuantity wanted nodes).map (Prod.map RestingNode.order id)

theorem nodeFills_eq (wanted : Int) (nodes : List (RestingNode Price)) :
    nodeFills wanted nodes = fills Order.quantity wanted (nodes.map RestingNode.order) :=
  (fills_map Order.quantity RestingNode.order (fun _ => rfl) wanted nodes).symm

theorem nodeFills_append (wanted : Int) (front back : List (RestingNode Price)) :
    nodeFills wanted (front ++ back) =
      nodeFills wanted front ++ nodeFills (wanted - total nodeQuantity wanted front) back := by
  simp only [nodeFills, fills_append, List.map_append]

namespace OrderBook

variable [PriceOperations Price]

/-! ### Turns of the inner loop -/

/-- The state of the loops after a trade. -/
def MatchState.trade (state : MatchState Price) (order : Order Price) (timestamp : Nat)
    (levelPrice : Price) (node : RestingNode Price) : MatchState Price :=
  let tradeQty := min (order.quantity - state.filledQty) node.order.quantity
  { orderIndex := state.orderIndex
    tradeCounter := state.tradeCounter + 1
    filledQty := state.filledQty + tradeQty
    filledNotional := state.filledNotional + (tradeQty : Price) * levelPrice
    events := state.events ++ [.trade {
      tradeId := tradeIdAt state.tradeCounter
      price := levelPrice
      quantity := tradeQty
      aggressorSide := order.side
      aggressorOrderId := order.orderId
      restingOrderId := node.order.orderId
      timestamp := timestamp }] }

/-- The state of the loops after a filled order leaves the index. -/
def MatchState.forget (state : MatchState Price) (orderId : String) : MatchState Price :=
  { state with orderIndex := Function.update state.orderIndex orderId none }

/-- The quantity of a trade with a resting order. -/
def MatchState.tradeQty (state : MatchState Price) (order : Order Price)
    (node : RestingNode Price) : Int :=
  min (order.quantity - state.filledQty) node.order.quantity

section Turn

variable (order : Order Price) (timestamp : Nat) (levelPrice : Price) (node : RestingNode Price)
  (rest : List (RestingNode Price)) (state : MatchState Price)

/-- A turn of the inner loop that fills the resting order. -/
theorem matchLevel_fills (wanting : state.filledQty < order.quantity)
    (emptied : node.order.quantity - state.tradeQty order node = 0) :
    matchLevel order timestamp levelPrice (node :: rest) state =
      matchLevel order timestamp levelPrice rest
        ((state.trade order timestamp levelPrice node).forget node.order.orderId) := by
  rw [matchLevel, if_pos wanting]
  exact if_pos emptied

/-- A turn of the inner loop that leaves some of the resting order. -/
theorem matchLevel_reduces (wanting : state.filledQty < order.quantity)
    (left : node.order.quantity - state.tradeQty order node ≠ 0) :
    matchLevel order timestamp levelPrice (node :: rest) state =
      let later := matchLevel order timestamp levelPrice rest
        (state.trade order timestamp levelPrice node)
      (⟨node.address, node.order.reduceQuantity (state.tradeQty order node)⟩ :: later.1,
        later.2) := by
  rw [matchLevel, if_pos wanting]
  exact if_neg left

/-- The inner loop stops when the order is filled. -/
theorem matchLevel_stops (full : ¬ state.filledQty < order.quantity) :
    matchLevel order timestamp levelPrice (node :: rest) state = (node :: rest, state) := by
  rw [matchLevel, if_neg full]

end Turn

/-! ### The effect of filling a list of nodes -/

/-- The state of the loops after filling a list of nodes. -/
def MatchState.fill (state : MatchState Price) (order : Order Price) (timestamp : Nat)
    (nodes : List (RestingNode Price)) : MatchState Price :=
  let wanted := order.quantity - state.filledQty
  { orderIndex := fun orderId =>
      if orderId ∈ (exhausted nodeQuantity wanted nodes).map RestingNode.orderId then none
      else state.orderIndex orderId
    tradeCounter := state.tradeCounter + (nodeFills wanted nodes).length
    filledQty := state.filledQty + total nodeQuantity wanted nodes
    filledNotional := (nodeFills wanted nodes).foldl
      (fun notional fill => notional + (fill.2 : Price) * fill.1.price) state.filledNotional
    events := state.events ++
      (fillTrades order timestamp state.tradeCounter (nodeFills wanted nodes)).map .trade }

theorem MatchState.fill_of_full (state : MatchState Price) (order : Order Price) (timestamp : Nat)
    (nodes : List (RestingNode Price)) (full : ¬ state.filledQty < order.quantity) :
    state.fill order timestamp nodes = state := by
  have nothing : order.quantity - state.filledQty ≤ 0 := by omega
  simp [fill, nodeFills, exhausted_of_nonpos nothing, fills_of_nonpos nothing,
    total_of_nonpos nothing, fillTrades]

theorem MatchState.fill_nil (state : MatchState Price) (order : Order Price) (timestamp : Nat) :
    state.fill order timestamp [] = state := by
  simp [fill, nodeFills, fills, exhausted, fillTrades]

theorem MatchState.fill_append (state : MatchState Price) (order : Order Price) (timestamp : Nat)
    (front back : List (RestingNode Price)) :
    state.fill order timestamp (front ++ back) =
      (state.fill order timestamp front).fill order timestamp back := by
  have wanted : order.quantity -
      (state.filledQty + total nodeQuantity (order.quantity - state.filledQty) front) =
      order.quantity - state.filledQty -
        total nodeQuantity (order.quantity - state.filledQty) front := by omega
  simp only [fill, wanted, exhausted_append, nodeFills_append, total_append,
    List.map_append, List.mem_append, List.length_append, List.foldl_append, fillTrades_append,
    List.append_assoc, add_assoc, mk.injEq, and_true]
  funext orderId
  by_cases inFront : orderId ∈ (exhausted nodeQuantity (order.quantity - state.filledQty)
      front).map RestingNode.orderId
  · simp [inFront]
  · simp [inFront]

/-- Filling from one node. -/
theorem MatchState.fill_singleton (state : MatchState Price) (order : Order Price)
    (timestamp : Nat) (node : RestingNode Price) (wanting : state.filledQty < order.quantity) :
    state.fill order timestamp [node] =
      let tradeQty := min (order.quantity - state.filledQty) node.order.quantity
      { orderIndex := if node.order.quantity ≤ order.quantity - state.filledQty then
          Function.update state.orderIndex node.order.orderId none else state.orderIndex
        tradeCounter := state.tradeCounter + 1
        filledQty := state.filledQty + tradeQty
        filledNotional := state.filledNotional + (tradeQty : Price) * node.order.price
        events := state.events ++ [.trade {
          tradeId := tradeIdAt state.tradeCounter
          price := node.order.price
          quantity := tradeQty
          aggressorSide := order.side
          aggressorOrderId := order.orderId
          restingOrderId := node.order.orderId
          timestamp := timestamp }] } := by
  have notNothing : ¬ order.quantity - state.filledQty ≤ 0 := by omega
  simp only [fill, nodeFills, fills, if_neg notNothing, nodeQuantity, List.map_cons, List.map_nil,
    Prod.map_apply, id_eq, fillTrades, List.length_singleton, List.foldl_cons, List.foldl_nil,
    total, List.sum_cons, List.sum_nil, add_zero, exhausted, mk.injEq, and_true]
  funext orderId
  by_cases enough : node.order.quantity ≤ order.quantity - state.filledQty
  · simp only [enough, if_true, List.map_cons, List.map_nil, List.mem_singleton,
      RestingNode.orderId, Function.update_apply]
  · simp [enough]

/-! ### The loops -/

/-- The inner loop is the greedy fill of its level. -/
theorem matchLevel_eq (order : Order Price) (timestamp : Nat) (levelPrice : Price)
    (nodes : List (RestingNode Price)) (state : MatchState Price)
    (ownPrice : ∀ node ∈ nodes, node.order.price = levelPrice) :
    matchLevel order timestamp levelPrice nodes state =
      (leftover nodeQuantity reduceNode (order.quantity - state.filledQty) nodes,
        state.fill order timestamp nodes) := by
  induction nodes generalizing state with
  | nil => rw [matchLevel, MatchState.fill_nil, leftover]
  | cons node rest inductionHypothesis =>
    have nodePrice := ownPrice node List.mem_cons_self
    have restPrice := fun other member => ownPrice other (List.mem_cons_of_mem node member)
    by_cases wanting : state.filledQty < order.quantity
    · have fillCons : state.fill order timestamp (node :: rest) =
          (state.fill order timestamp [node]).fill order timestamp rest :=
        MatchState.fill_append state order timestamp [node] rest
      have notNothing : ¬ order.quantity - state.filledQty ≤ 0 := by omega
      rw [fillCons, MatchState.fill_singleton _ _ _ _ wanting, matchLevel, if_pos wanting,
        nodePrice, leftover, nodeQuantity, if_neg notNothing]
      by_cases enough : node.order.quantity ≤ order.quantity - state.filledQty
      · have reduced : (node.order.reduceQuantity node.order.quantity).quantity = 0 := sub_self _
        simp only [min_eq_right enough, if_pos enough, if_pos reduced, Order.reduceQuantity_orderId,
          inductionHypothesis _ restPrice, sub_add_eq_sub_sub]
      · have less : order.quantity - state.filledQty < node.order.quantity := by omega
        have more :
            (node.order.reduceQuantity (order.quantity - state.filledQty)).quantity ≠ 0 := by
          rw [Order.reduceQuantity_quantity]
          omega
        have nothing : order.quantity -
            (state.filledQty + (order.quantity - state.filledQty)) ≤ 0 := by omega
        simp only [min_eq_left less.le, if_neg enough, if_neg more, Order.reduceQuantity_orderId,
          inductionHypothesis _ restPrice, leftover_of_nonpos nothing, reduceNode]
    · rw [matchLevel, if_neg wanting, MatchState.fill_of_full _ _ _ _ wanting,
        leftover_of_nonpos (by omega)]

/-- A level the limit check stops at. -/
def Blocked (side : BookSide) (order : Order Price) (levelPrice : Price) : Prop :=
  order.orderType = .limit ∧ side.beyondLimit levelPrice order.price

instance (side : BookSide) (order : Order Price) (levelPrice : Price) :
    Decidable (Blocked side order levelPrice) :=
  inferInstanceAs (Decidable (_ ∧ _))

/-- A level behind a blocked one is blocked. -/
theorem Blocked.behind {side : BookSide} {order : Order Price} {first second : Price}
    (blocked : Blocked side order first) (before : side.opposite.before first second) :
    Blocked side order second :=
  ⟨blocked.1, (side.beyondLimit_iff _ _).mpr
    (IsTrans.trans _ _ _ ((side.beyondLimit_iff _ _).mp blocked.2) before)⟩

/-- The nodes of the levels before the first blocked one. -/
def openNodes (side : BookSide) (order : Order Price)
    (entries : List (Price × List (RestingNode Price))) : List (RestingNode Price) :=
  (entries.takeWhile fun entry => ¬ Blocked side order entry.1).flatMap Prod.snd

/-- The levels from the first blocked one on. -/
def shutLevels (side : BookSide) (order : Order Price)
    (entries : List (Price × List (RestingNode Price))) :
    List (Price × List (RestingNode Price)) :=
  entries.dropWhile fun entry => ¬ Blocked side order entry.1

theorem openNodes_append_shutLevels (side : BookSide) (order : Order Price)
    (entries : List (Price × List (RestingNode Price))) :
    openNodes side order entries ++ (shutLevels side order entries).flatMap Prod.snd =
      entries.flatMap Prod.snd := by
  rw [openNodes, shutLevels, ← List.flatMap_append, List.takeWhile_append_dropWhile]

section Cons

variable (side : BookSide) (order : Order Price) (entry : Price × List (RestingNode Price))
  (rest : List (Price × List (RestingNode Price)))

theorem openNodes_cons_blocked (blocked : Blocked side order entry.1) :
    openNodes side order (entry :: rest) = [] := by
  rw [openNodes, List.takeWhile_cons_of_neg (by simpa using blocked), List.flatMap_nil]

theorem openNodes_cons_open (opens : ¬ Blocked side order entry.1) :
    openNodes side order (entry :: rest) = entry.2 ++ openNodes side order rest := by
  rw [openNodes, List.takeWhile_cons_of_pos (by simpa using opens), List.flatMap_cons, openNodes]

theorem shutLevels_cons_blocked (blocked : Blocked side order entry.1) :
    shutLevels side order (entry :: rest) = entry :: rest := by
  rw [shutLevels, List.dropWhile_cons_of_neg (by simpa using blocked)]

theorem shutLevels_cons_open (opens : ¬ Blocked side order entry.1) :
    shutLevels side order (entry :: rest) = shutLevels side order rest := by
  rw [shutLevels, List.dropWhile_cons_of_pos (by simpa using opens), shutLevels]

end Cons

/-- Every node is in the level of its own price. -/
def OwnPrices (entries : List (Price × List (RestingNode Price))) : Prop :=
  ∀ entry ∈ entries, ∀ node ∈ entry.2, node.order.price = entry.1

omit [PriceOperations Price] in
theorem OwnPrices.tail {entry : Price × List (RestingNode Price)}
    {rest : List (Price × List (RestingNode Price))} (ownPrices : OwnPrices (entry :: rest)) :
    OwnPrices rest :=
  fun other member => ownPrices other (List.mem_cons_of_mem _ member)

/-- Nodes with positive quantities, each in the level of its own price. -/
structure Fillable (entries : List (Price × List (RestingNode Price))) : Prop where
  positive : ∀ entry ∈ entries, Positive nodeQuantity entry.2
  ownPrice : ∀ entry ∈ entries, ∀ node ∈ entry.2, node.order.price = entry.1

omit [PriceOperations Price] in
theorem Fillable.tail {entry : Price × List (RestingNode Price)}
    {rest : List (Price × List (RestingNode Price))} (fillable : Fillable (entry :: rest)) :
    Fillable rest where
  positive other member := fillable.positive other (List.mem_cons_of_mem _ member)
  ownPrice other member := fillable.ownPrice other (List.mem_cons_of_mem _ member)

/-- The outer loop is the greedy fill of the open levels. -/
theorem matchLevels_eq (side : BookSide) (order : Order Price) (timestamp : Nat)
    (entries : List (Price × List (RestingNode Price))) (state : MatchState Price)
    (ownPrices : OwnPrices entries) :
    (matchLevels side order timestamp entries state).2 =
        state.fill order timestamp (openNodes side order entries) ∧
      (matchLevels side order timestamp entries state).1.flatMap Prod.snd =
        leftover nodeQuantity reduceNode (order.quantity - state.filledQty)
          (openNodes side order entries) ++ (shutLevels side order entries).flatMap Prod.snd := by
  induction entries generalizing state with
  | nil =>
    rw [matchLevels]
    exact ⟨(MatchState.fill_nil state order timestamp).symm, rfl⟩
  | cons entry rest inductionHypothesis =>
    obtain ⟨levelPrice, level⟩ := entry
    have levelPrices := ownPrices _ List.mem_cons_self
    rw [matchLevels]
    by_cases wanting : state.filledQty < order.quantity
    · rw [if_pos wanting]
      by_cases blocked : order.orderType = .limit ∧ side.beyondLimit levelPrice order.price
      · rw [if_pos blocked, openNodes_cons_blocked side order (levelPrice, level) rest blocked,
          shutLevels_cons_blocked side order (levelPrice, level) rest blocked, MatchState.fill_nil]
        exact ⟨rfl, rfl⟩
      · have inner := matchLevel_eq order timestamp levelPrice level state levelPrices
        have filled : order.quantity - (state.fill order timestamp level).filledQty =
            order.quantity - state.filledQty -
              total nodeQuantity (order.quantity - state.filledQty) level :=
          sub_add_eq_sub_sub ..
        obtain ⟨laterState, laterNodes⟩ :=
          inductionHypothesis (state.fill order timestamp level) ownPrices.tail
        rw [filled] at laterNodes
        rw [if_neg blocked, openNodes_cons_open side order (levelPrice, level) rest blocked,
          shutLevels_cons_open side order (levelPrice, level) rest blocked, inner,
          MatchState.fill_append, leftover_append,
          List.append_assoc, ← laterNodes]
        by_cases emptied : (leftover nodeQuantity reduceNode (order.quantity - state.filledQty)
            level).isEmpty
        · rw [if_pos emptied, List.isEmpty_iff.mp emptied]
          exact ⟨laterState, rfl⟩
        · rw [if_neg emptied]
          exact ⟨laterState, rfl⟩
    · rw [if_neg wanting, MatchState.fill_of_full _ _ _ _ wanting,
        leftover_of_nonpos (by omega), openNodes_append_shutLevels]
      exact ⟨rfl, rfl⟩

/-- Each level left by the outer loop is what the greedy fill leaves of a level, and it is
not empty unless it was before. -/
theorem matchLevels_entry (side : BookSide) (order : Order Price) (timestamp : Nat)
    (entries : List (Price × List (RestingNode Price))) (state : MatchState Price)
    (ownPrices : OwnPrices entries) (entry : Price × List (RestingNode Price))
    (member : entry ∈ (matchLevels side order timestamp entries state).1) :
    ∃ level wanted, (entry.1, level) ∈ entries ∧
      entry.2 = leftover nodeQuantity reduceNode wanted level ∧
      (entry.2 ≠ [] ∨ entry ∈ entries) := by
  have unchanged : ∀ others : List (Price × List (RestingNode Price)), entry ∈ others →
      ∃ level wanted, (entry.1, level) ∈ others ∧
        entry.2 = leftover nodeQuantity reduceNode wanted level ∧
        (entry.2 ≠ [] ∨ entry ∈ others) := fun others inOthers =>
    ⟨entry.2, 0, inOthers, (leftover_of_nonpos le_rfl _).symm, .inr inOthers⟩
  induction entries generalizing state with
  | nil => cases member
  | cons head rest inductionHypothesis =>
    obtain ⟨levelPrice, level⟩ := head
    rw [matchLevels] at member
    have later : ∀ next, entry ∈ (matchLevels side order timestamp rest next).1 →
        ∃ level' wanted, (entry.1, level') ∈ (levelPrice, level) :: rest ∧
          entry.2 = leftover nodeQuantity reduceNode wanted level' ∧
          (entry.2 ≠ [] ∨ entry ∈ (levelPrice, level) :: rest) := by
      intro next inLater
      obtain ⟨level', wanted, inRest, left, nonempty⟩ :=
        inductionHypothesis next ownPrices.tail inLater
      exact ⟨level', wanted, List.mem_cons_of_mem _ inRest, left,
        nonempty.imp_right (List.mem_cons_of_mem _)⟩
    by_cases wanting : state.filledQty < order.quantity
    · rw [if_pos wanting] at member
      by_cases blocked : order.orderType = .limit ∧ side.beyondLimit levelPrice order.price
      · rw [if_pos blocked] at member
        exact unchanged _ member
      · rw [if_neg blocked, matchLevel_eq order timestamp levelPrice level state
          (ownPrices _ List.mem_cons_self)]
          at member
        by_cases emptied : (leftover nodeQuantity reduceNode (order.quantity - state.filledQty)
            level).isEmpty
        · rw [if_pos emptied] at member
          exact later _ member
        · rw [if_neg emptied] at member
          rcases List.mem_cons.mp member with rfl | inLater
          · exact ⟨level, _, List.mem_cons_self, rfl,
              .inl fun isNil => emptied (List.isEmpty_iff.mpr isNil)⟩
          · exact later _ inLater
    · rw [if_neg wanting] at member
      exact unchanged _ member

/-- When the outer loop ends with something still wanted, every level left is blocked. -/
theorem matchLevels_unfilled (side : BookSide) (order : Order Price) (timestamp : Nat)
    (entries : List (Price × List (RestingNode Price))) (state : MatchState Price)
    (fillable : Fillable entries)
    (unfilled : (matchLevels side order timestamp entries state).2.filledQty < order.quantity) :
    (matchLevels side order timestamp entries state).1 = shutLevels side order entries := by
  induction entries generalizing state with
  | nil => rfl
  | cons head rest inductionHypothesis =>
    obtain ⟨levelPrice, level⟩ := head
    rw [matchLevels] at unfilled ⊢
    by_cases wanting : state.filledQty < order.quantity
    · rw [if_pos wanting] at unfilled ⊢
      by_cases blocked : order.orderType = .limit ∧ side.beyondLimit levelPrice order.price
      · rw [if_pos blocked]
        exact (shutLevels_cons_blocked side order (levelPrice, level) rest blocked).symm
      · rw [if_neg blocked, matchLevel_eq order timestamp levelPrice level state
          (fillable.ownPrice _ List.mem_cons_self)] at unfilled ⊢
        have later := (matchLevels_eq side order timestamp rest
          (state.fill order timestamp level) fillable.tail.ownPrice).1
        have restPositive : Positive nodeQuantity (openNodes side order rest) := by
          intro node member
          obtain ⟨entry, inTaken, inLevel⟩ := List.mem_flatMap.mp member
          exact fillable.tail.positive entry (List.takeWhile_subset _ inTaken) node inLevel
        have levelUnfilled : total nodeQuantity (order.quantity - state.filledQty) level <
            order.quantity - state.filledQty := by
          have grows := total_nonneg
            (order.quantity - (state.fill order timestamp level).filledQty) restPositive
          have reached : (state.fill order timestamp level).filledQty = state.filledQty +
            total nodeQuantity (order.quantity - state.filledQty) level := rfl
          have final : (matchLevels side order timestamp rest
              (state.fill order timestamp level)).2.filledQty < order.quantity := by
            simp only at unfilled
            split at unfilled <;> exact unfilled
          rw [later] at final
          simp only [MatchState.fill] at final grows reached
          omega
        have emptied := leftover_eq_nil reduceNode levelUnfilled
        rw [emptied] at unfilled ⊢
        rw [shutLevels_cons_open side order (levelPrice, level) rest blocked]
        exact inductionHypothesis (state.fill order timestamp level) fillable.tail unfilled
    · rw [if_neg wanting] at unfilled
      exact absurd unfilled wanting

end OrderBook

end MarketSandbox
