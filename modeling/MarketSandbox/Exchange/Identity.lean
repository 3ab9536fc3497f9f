/-
This file follows order ids through the book without asking anything of its
quantities. The trades of a step name resting orders, and an id that rests after
a step rested before it or belongs to an order that the step reports to rest.
-/

import MarketSandbox.Exchange.Reports
import MarketSandbox.Exchange.Run

namespace MarketSandbox

variable {Price : Type} [PriceOperations Price]

namespace OrderBook

theorem mem_restingIds {book : OrderBook Price} {orderId : String} :
    orderId ∈ book.restingIds ↔ ∃ side, ∃ node ∈ book.nodes side, node.order.orderId = orderId := by
  rw [restingIds_eq, List.mem_map]
  constructor
  · rintro ⟨entry, inLocated, rfl⟩
    obtain ⟨side, node, inNodes, rfl⟩ := (book.mem_located entry).mp inLocated
    exact ⟨side, node, inNodes, rfl⟩
  · rintro ⟨side, node, inNodes, rfl⟩
    exact ⟨_, (book.mem_located _).mpr ⟨side, node, inNodes, rfl⟩, rfl⟩

/-! ### The matching loops -/

theorem matchLevel_ids (order : Order Price) (timestamp : Nat) (levelPrice : Price)
    (nodes : List (RestingNode Price)) (state : MatchState Price) :
    ∀ node ∈ (matchLevel order timestamp levelPrice nodes state).1,
      ∃ old ∈ nodes, old.order.orderId = node.order.orderId := by
  induction nodes generalizing state with
  | nil => exact fun _ member => nomatch member
  | cons first rest inductionHypothesis =>
    intro node member
    by_cases wanting : state.filledQty < order.quantity
    · by_cases emptied : first.order.quantity - state.tradeQty order first = 0
      · rw [matchLevel_fills _ _ _ _ _ _ wanting emptied] at member
        obtain ⟨old, inRest, same⟩ := inductionHypothesis _ node member
        exact ⟨old, List.mem_cons_of_mem _ inRest, same⟩
      · rw [matchLevel_reduces _ _ _ _ _ _ wanting emptied] at member
        rcases List.mem_cons.mp member with rfl | later
        · exact ⟨first, List.mem_cons_self, rfl⟩
        · obtain ⟨old, inRest, same⟩ := inductionHypothesis _ node later
          exact ⟨old, List.mem_cons_of_mem _ inRest, same⟩
    · rw [matchLevel_stops _ _ _ _ _ _ wanting] at member
      exact ⟨node, member, rfl⟩

theorem matchLevels_ids (side : BookSide) (order : Order Price) (timestamp : Nat)
    (entries : List (Price × List (RestingNode Price))) (state : MatchState Price) :
    ∀ node ∈ (matchLevels side order timestamp entries state).1.flatMap Prod.snd,
      ∃ old ∈ entries.flatMap Prod.snd, old.order.orderId = node.order.orderId := by
  induction entries generalizing state with
  | nil => exact fun _ member => nomatch member
  | cons entry rest inductionHypothesis =>
    obtain ⟨levelPrice, level⟩ := entry
    intro node member
    rw [matchLevels] at member
    rw [List.flatMap_cons]
    have later : node ∈ (matchLevels side order timestamp rest
        (matchLevel order timestamp levelPrice level state).2).1.flatMap Prod.snd →
        ∃ old ∈ level ++ rest.flatMap Prod.snd, old.order.orderId = node.order.orderId := by
      intro inLater
      obtain ⟨old, inRest, same⟩ := inductionHypothesis _ node inLater
      exact ⟨old, List.mem_append_right _ inRest, same⟩
    split_ifs at member
    · exact ⟨node, member, rfl⟩
    · simp only at member
      split_ifs at member
      · exact later member
      · rw [List.flatMap_cons, List.mem_append] at member
        rcases member with inLevel | inLater
        · obtain ⟨old, inOld, same⟩ := matchLevel_ids _ _ _ _ _ node inLevel
          exact ⟨old, List.mem_append_left _ inOld, same⟩
        · exact later inLater
    · exact ⟨node, member, rfl⟩

theorem matchLevel_names (order : Order Price) (timestamp : Nat) (levelPrice : Price)
    (nodes : List (RestingNode Price)) (state : MatchState Price) (trade : Trade Price)
    (emitted : .trade trade ∈ (matchLevel order timestamp levelPrice nodes state).2.events) :
    .trade trade ∈ state.events ∨ ∃ node ∈ nodes, node.order.orderId = trade.restingOrderId := by
  induction nodes generalizing state with
  | nil => exact .inl emitted
  | cons first rest inductionHypothesis =>
    have turn : .trade trade ∈ (state.trade order timestamp levelPrice first).events →
        .trade trade ∈ state.events ∨
          ∃ node ∈ first :: rest, node.order.orderId = trade.restingOrderId := by
      intro inTurn
      rcases List.mem_append.mp inTurn with before | isLast
      · exact .inl before
      · obtain rfl := MarketEvent.trade.inj (List.mem_singleton.mp isLast)
        exact .inr ⟨first, List.mem_cons_self, rfl⟩
    have wider : (∃ node ∈ rest, node.order.orderId = trade.restingOrderId) →
        ∃ node ∈ first :: rest, node.order.orderId = trade.restingOrderId := by
      rintro ⟨node, inRest, same⟩
      exact ⟨node, List.mem_cons_of_mem _ inRest, same⟩
    by_cases wanting : state.filledQty < order.quantity
    · by_cases emptied : first.order.quantity - state.tradeQty order first = 0
      · rw [matchLevel_fills _ _ _ _ _ _ wanting emptied] at emitted
        exact (inductionHypothesis _ emitted).elim turn fun named => .inr (wider named)
      · rw [matchLevel_reduces _ _ _ _ _ _ wanting emptied] at emitted
        exact (inductionHypothesis _ emitted).elim turn fun named => .inr (wider named)
    · rw [matchLevel_stops _ _ _ _ _ _ wanting] at emitted
      exact .inl emitted

theorem matchLevels_names (side : BookSide) (order : Order Price) (timestamp : Nat)
    (entries : List (Price × List (RestingNode Price))) (state : MatchState Price)
    (trade : Trade Price)
    (emitted : .trade trade ∈ (matchLevels side order timestamp entries state).2.events) :
    .trade trade ∈ state.events ∨
      ∃ node ∈ entries.flatMap Prod.snd, node.order.orderId = trade.restingOrderId := by
  induction entries generalizing state with
  | nil => exact .inl emitted
  | cons entry rest inductionHypothesis =>
    obtain ⟨levelPrice, level⟩ := entry
    rw [matchLevels] at emitted
    rw [List.flatMap_cons]
    have later : .trade trade ∈ (matchLevels side order timestamp rest
        (matchLevel order timestamp levelPrice level state).2).2.events →
        .trade trade ∈ state.events ∨ ∃ node ∈ level ++ rest.flatMap Prod.snd,
          node.order.orderId = trade.restingOrderId := by
      intro inLater
      rcases inductionHypothesis _ inLater with inLevel | ⟨node, inRest, same⟩
      · rcases matchLevel_names _ _ _ _ _ trade inLevel with before | ⟨node, inLevel, same⟩
        · exact .inl before
        · exact .inr ⟨node, List.mem_append_left _ inLevel, same⟩
      · exact .inr ⟨node, List.mem_append_right _ inRest, same⟩
    split_ifs at emitted
    · exact .inl emitted
    · simp only at emitted
      split_ifs at emitted
      · exact later emitted
      · exact later emitted
    · exact .inl emitted

/-! ### The operations -/

theorem matched_ids (book : OrderBook Price) (side : BookSide) (order : Order Price)
    (timestamp : Nat) (other : BookSide) :
    ∀ node ∈ (book.matched side order timestamp).nodes other,
      ∃ old ∈ book.nodes other, old.order.orderId = node.order.orderId := by
  revert other
  refine side.forall_of_opposite ?_ ?_
  · intro node member
    rw [matched_nodes_self] at member
    exact ⟨node, member, rfl⟩
  · intro node member
    rw [nodes, SortedMap.concat, matched_entries] at member
    exact matchLevels_ids _ _ _ _ _ node member

theorem submitTo_ids (book : OrderBook Price) (side : BookSide) (order : Order Price)
    (timestamp : Nat) {orderId : String}
    (member : orderId ∈ (book.submitTo side order timestamp).book.restingIds) :
    orderId ∈ book.restingIds ∨ orderId = order.orderId ∧
      ((book.submitTo side order timestamp).result.status = .queued ∨
        (book.submitTo side order timestamp).result.status = .partialFill) := by
  obtain ⟨other, node, inNodes, rfl⟩ := mem_restingIds.mp member
  have old : ∀ other, ∀ node ∈ (book.matched side order timestamp).nodes other,
      node.order.orderId ∈ book.restingIds := by
    intro other node inMatched
    obtain ⟨old, inOld, same⟩ := book.matched_ids side order timestamp other node inMatched
    exact mem_restingIds.mpr ⟨other, old, inOld, same⟩
  rw [submitTo, conclude_status]
  rw [submitTo, conclude_book] at inNodes
  split_ifs at inNodes with rests
  · revert inNodes
    clear member
    revert other
    refine side.forall_of_opposite ?_ ?_
    · intro inRested
      rcases List.mem_cons.mp ((rest_nodes_self _ _ _).mem_iff.mp inRested) with rfl | inMatched
      · refine .inr ⟨rfl, ?_⟩
        rw [if_neg rests.2, if_neg rests.1]
        split_ifs
        · exact .inl rfl
        · exact .inr rfl
      · exact .inl (old _ _ inMatched)
    · intro inRested
      rw [rest_nodes_opposite] at inRested
      exact .inl (old _ _ inRested)
  · exact .inl (old _ _ inNodes)

theorem submitTo_names (book : OrderBook Price) (side : BookSide) (order : Order Price)
    (timestamp : Nat) : ∀ trade ∈
      (book.submitTo side order timestamp).events.filterMap MarketEvent.trade?,
      trade.restingOrderId ∈ book.restingIds := by
  intro trade member
  rw [submitTo, conclude_trades] at member
  obtain ⟨event, inEvents, isTrade⟩ := List.mem_filterMap.mp member
  cases event with
  | monostate => cases isTrade
  | topOfBook top => cases isTrade
  | trade executed =>
    obtain rfl := Option.some.inj isTrade
    rcases matchLevels_names _ _ _ _ _ executed inEvents with before | ⟨node, inNodes, same⟩
    · cases before
    · exact mem_restingIds.mpr ⟨side.opposite, node, inNodes, same⟩

theorem eraseResting_ids {book after : OrderBook Price} {side : BookSide}
    {location : OrderLocation Price} (erased : book.eraseResting side location = some after)
    {orderId : String} (member : orderId ∈ after.restingIds) : orderId ∈ book.restingIds := by
  obtain ⟨other, node, inNodes, rfl⟩ := mem_restingIds.mp member
  rw [eraseResting] at erased
  cases found : (book.levels side).find location.price with
  | none =>
    rw [found] at erased
    cases erased
  | some level =>
    simp only [found, Option.bind_eq_bind, Option.bind_some, eraseNode] at erased
    split_ifs at erased with present
    swap
    · cases erased
    obtain ⟨foundEntry, inEntries, isLevel⟩ := SortedMap.mem_of_find found
    rw [Option.bind_some, Option.some_inj] at erased
    subst erased
    refine mem_restingIds.mpr ⟨other, node, ?_, rfl⟩
    clear member
    revert other
    refine side.forall_of_opposite ?_ ?_
    · intro inErased
      rw [nodes, levels_setLevels, SortedMap.mem_concat] at inErased
      obtain ⟨entry, inMap, inLevel⟩ := inErased
      refine (SortedMap.mem_concat _ _).mpr ?_
      split_ifs at inMap
      · exact ⟨entry, SortedMap.mem_of_mem_erase inMap, inLevel⟩
      · rcases SortedMap.mem_of_mem_set inMap with old | isErased
        · exact ⟨entry, old, inLevel⟩
        · rw [isErased, ← isLevel] at inLevel
          exact ⟨foundEntry, inEntries, List.mem_of_mem_filter inLevel⟩
    · intro inErased
      rwa [nodes, levels_setLevels_opposite] at inErased

end OrderBook

/-- The trades of a step name resting orders, and an id that rests after a step rested before
it or is the id of an order that the step reports to rest. -/
theorem step_ids {source target : OrderBook Price} {record : Record Price}
    (step : (bookSystem Price).step source record target) :
    (∀ trade ∈ record.trades, trade.restingOrderId ∈ source.restingIds) ∧
      ∀ orderId ∈ target.restingIds, orderId ∈ source.restingIds ∨
        ∃ order, record.operation = .submit order ∧ order.orderId = orderId ∧
          (record.result.status = .queued ∨ record.result.status = .partialFill) := by
  obtain ⟨_, _, performed⟩ := step
  cases operation : record.operation with
  | submit order =>
    rw [operation] at performed
    have outcome := Option.some.inj performed
    rw [OrderBook.submit_eq] at outcome
    have names := source.submitTo_names (BookSide.ofOrder order.side) order record.timestamp
    have ids := fun orderId => @OrderBook.submitTo_ids _ _ source (BookSide.ofOrder order.side)
      order record.timestamp orderId
    rw [outcome] at names ids
    refine ⟨names, fun orderId member => (ids orderId member).imp_right ?_⟩
    rintro ⟨rfl, status⟩
    exact ⟨order, rfl, rfl, status⟩
  | cancel orderId nodeId =>
    rw [operation] at performed
    replace performed : source.cancel orderId record.timestamp =
      some ⟨target, record.result, record.events⟩ := performed
    rw [OrderBook.cancel] at performed
    cases found : source.orderIndex orderId with
    | none =>
      simp only [found, Option.some_inj, OrderBook.Outcome.mk.injEq] at performed
      obtain ⟨rfl, _, events⟩ := performed
      rw [Record.trades, ← events]
      exact ⟨fun _ member => absurd member List.not_mem_nil, fun _ member => .inl member⟩
    | some location =>
      simp only [found, Option.bind_eq_bind, Option.bind_eq_some_iff, Option.some_inj,
        OrderBook.Outcome.mk.injEq] at performed
      obtain ⟨erased, isErased, rfl, _, events⟩ := performed
      rw [Record.trades, ← events]
      exact ⟨fun _ member => absurd member List.not_mem_nil, fun _ member =>
        .inl (OrderBook.eraseResting_ids isErased member)⟩

end MarketSandbox
