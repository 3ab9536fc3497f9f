/-
This file proves what a submit to a valid book reports and leaves behind: its
trades, its filled quantity, its average price, its status, and the nodes of
both sides, all in terms of the greedy fill of the open levels.
-/

import MarketSandbox.Exchange.Invariant

namespace MarketSandbox

open GreedyFill

variable {Price : Type}

namespace OrderBook

variable [PriceOperations Price] (book : OrderBook Price) (side : BookSide) (order : Order Price)
  (timestamp : Nat)

/-! ### The end of a submit -/

theorem conclude_filledQuantity (state : MatchState Price) :
    (book.conclude side order timestamp state).result.filledQuantity = state.filledQty := by
  unfold conclude
  by_cases market : order.orderType = .market
  · by_cases full : state.filledQty = order.quantity <;> simp [market, full]
  · by_cases full : state.filledQty = order.quantity <;> simp [market, full]

theorem conclude_avgPrice (state : MatchState Price) :
    (book.conclude side order timestamp state).result.avgPrice =
      if state.filledQty > 0 then state.filledNotional / (state.filledQty : Price) else 0 := by
  unfold conclude
  by_cases market : order.orderType = .market
  · by_cases full : state.filledQty = order.quantity <;> simp [market, full]
  · by_cases full : state.filledQty = order.quantity <;> simp [market, full]

theorem conclude_trades (state : MatchState Price) :
    (book.conclude side order timestamp state).events.filterMap MarketEvent.trade? =
      state.events.filterMap MarketEvent.trade? := by
  unfold conclude
  by_cases market : order.orderType = .market
  · simp [market, MarketEvent.trade?]
  · by_cases full : state.filledQty = order.quantity <;> simp [market, full, MarketEvent.trade?]

theorem conclude_status (state : MatchState Price) :
    (book.conclude side order timestamp state).result.status =
      if state.filledQty = order.quantity then .filled
      else if order.orderType = .market then .rejected
      else if state.filledQty = 0 then .queued else .partialFill := by
  unfold conclude
  by_cases market : order.orderType = .market
  · by_cases full : state.filledQty = order.quantity <;> simp [market, full]
  · by_cases full : state.filledQty = order.quantity <;> simp [market, full]

variable {book}

/-! ### Submits in terms of the greedy fill -/

/-- The trades of a submit are those of the greedy fill. -/
theorem submitTo_trades (wired : book.Wired) :
    (book.submitTo side order timestamp).events.filterMap MarketEvent.trade? =
      fillTrades order timestamp book.tradeCounter (nodeFills order.quantity
        (openNodes side order (book.levels side.opposite).entries)) := by
  have loops := (matchLevels_eq side order timestamp (book.levels side.opposite).entries
    book.startMatch (wired.ownPrice side.opposite)).1
  rw [submitTo, conclude_trades, loops]
  simp only [MatchState.fill, startMatch, List.nil_append, sub_zero, List.filterMap_map]
  exact List.filterMap_some

/-- A submit to a valid book trades positive quantities. -/
theorem submitTo_trades_positive {book : OrderBook Price} (valid : book.Valid) (side : BookSide)
    (order : Order Price) (timestamp : Nat) :
    ∀ trade ∈ (book.submitTo side order timestamp).events.filterMap MarketEvent.trade?,
      0 < trade.quantity := by
  intro trade member
  have inQuantities := List.mem_map_of_mem (f := Trade.quantity) member
  rw [submitTo_trades side order timestamp valid.wired, fillTrades_quantity, nodeFills,
    List.map_map] at inQuantities
  obtain ⟨fill, inFills, same⟩ := List.mem_map.mp inQuantities
  rw [← same]
  exact fills_positive (openNodes_positive valid side order) inFills

theorem submitTo_filledQuantity (wired : book.Wired) :
    (book.submitTo side order timestamp).result.filledQuantity = book.filledBy side order := by
  have loops := (matchLevels_eq side order timestamp (book.levels side.opposite).entries
    book.startMatch (wired.ownPrice side.opposite)).1
  rw [submitTo, conclude_filledQuantity, loops, startMatch_fill]

theorem submitTo_status (wired : book.Wired) :
    (book.submitTo side order timestamp).result.status =
      if book.filledBy side order = order.quantity then .filled
      else if order.orderType = .market then .rejected
      else if book.filledBy side order = 0 then .queued else .partialFill := by
  have loops := (matchLevels_eq side order timestamp (book.levels side.opposite).entries
    book.startMatch (wired.ownPrice side.opposite)).1
  rw [submitTo, conclude_status, loops, startMatch_fill]

theorem submitTo_avgPrice (wired : book.Wired) :
    (book.submitTo side order timestamp).result.avgPrice =
      if book.filledBy side order > 0 then
        (nodeFills order.quantity
          (openNodes side order (book.levels side.opposite).entries)).foldl
            (fun notional fill => notional + (fill.2 : Price) * fill.1.price) 0 /
          (book.filledBy side order : Price)
      else 0 := by
  have loops := (matchLevels_eq side order timestamp (book.levels side.opposite).entries
    book.startMatch (wired.ownPrice side.opposite)).1
  rw [submitTo, conclude_avgPrice, loops, startMatch_fill]
  simp only [MatchState.fill, startMatch, sub_zero]

/-- The opposite side after a submit: what the greedy fill leaves. -/
theorem submitTo_nodes_opposite (wired : book.Wired) :
    (book.submitTo side order timestamp).book.nodes side.opposite =
      leftover nodeQuantity reduceNode order.quantity
          (openNodes side order (book.levels side.opposite).entries) ++
        (shutLevels side order (book.levels side.opposite).entries).flatMap Prod.snd := by
  rw [submitTo_book wired]
  split_ifs
  · rw [nodes, rest_levels_opposite, ← nodes, matched_nodes_opposite wired]
  · rw [matched_nodes_opposite wired]

/-- A submit that fills nothing leaves the nodes where they were. -/
theorem matched_nodes_of_unfilled {book : OrderBook Price} (valid : book.Valid) (side : BookSide)
    (order : Order Price) (timestamp : Nat) (wants : 0 < order.quantity)
    (unfilled : book.filledBy side order = 0) (other : BookSide) :
    (book.matched side order timestamp).nodes other = book.nodes other := by
  revert other
  refine side.forall_of_opposite ?_ ?_
  · exact matched_nodes_self book side order timestamp
  · have positive := openNodes_positive valid side order
    have nothingOpen : openNodes side order (book.levels side.opposite).entries = [] := by
      cases opens : openNodes side order (book.levels side.opposite).entries with
      | nil => rfl
      | cons node rest =>
        rw [filledBy, opens, total_cons wants] at unfilled
        rw [opens] at positive
        have first := positive node List.mem_cons_self
        have others := total_nonneg (order.quantity - min order.quantity (nodeQuantity node))
          positive.tail
        omega
    rw [matched_nodes_opposite valid.wired, nodes_split book side order, nothingOpen]
    rfl

end OrderBook

end MarketSandbox
