/-
This file proves that every resting order is a submitted order less what it has
traded, so that it has one submitter and never more than it was submitted with.
It also bounds the trades of a submit by what rests under the ids they name.
-/

import MarketSandbox.Exchange.Ledger

namespace MarketSandbox

open GreedyFill

variable {Price : Type}

section Submitters

variable [LT Price]

/-- The node that submitted the order with an id. -/
def Submitter (records : List (Record Price)) (orderId nodeId : String) : Prop :=
  ∃ order ∈ submitted records, order.orderId = orderId ∧ order.nodeId = nodeId

/-- A submitted order less a filled quantity. -/
def Remainder (records : List (Record Price)) (resting : Order Price) : Prop :=
  ∃ order ∈ submitted records, ∃ filled, 0 ≤ filled ∧ resting = order.reduceQuantity filled

theorem Submitter.later {front : List (Record Price)} {orderId nodeId : String}
    (submitter : Submitter front orderId nodeId) (back : List (Record Price)) :
    Submitter (front ++ back) orderId nodeId := by
  obtain ⟨order, member, isOrder⟩ := submitter
  rw [Submitter, submitted_append]
  exact ⟨order, List.mem_append_left _ member, isOrder⟩

theorem Remainder.later {front : List (Record Price)} {resting : Order Price}
    (remainder : Remainder front resting) (back : List (Record Price)) :
    Remainder (front ++ back) resting := by
  obtain ⟨order, member, isOrder⟩ := remainder
  rw [Remainder, submitted_append]
  exact ⟨order, List.mem_append_left _ member, isOrder⟩

theorem Remainder.reduce {records : List (Record Price)} {resting : Order Price}
    (remainder : Remainder records resting) {amount : Int} (nonneg : 0 ≤ amount) :
    Remainder records (resting.reduceQuantity amount) := by
  obtain ⟨order, member, filled, filledNonneg, rfl⟩ := remainder
  refine ⟨order, member, filled + amount, by omega, ?_⟩
  simp only [Order.reduceQuantity, sub_sub]

theorem Remainder.submitter {records : List (Record Price)} {resting : Order Price}
    (remainder : Remainder records resting) :
    Submitter records resting.orderId resting.nodeId := by
  obtain ⟨order, member, _, _, rfl⟩ := remainder
  exact ⟨order, member, rfl, rfl⟩

/-- A submit under another id changes no submitter. -/
theorem submitter_append_iff {front : List (Record Price)} {record : Record Price}
    {orderId nodeId : String}
    (other : ∀ order, record.operation = .submit order → order.orderId ≠ orderId) :
    Submitter (front ++ [record]) orderId nodeId ↔ Submitter front orderId nodeId := by
  refine ⟨?_, fun submitter => submitter.later [record]⟩
  rintro ⟨order, member, isId, isNode⟩
  rcases mem_submitted_append.mp member with old | isLast
  · exact ⟨order, old, isId, isNode⟩
  · exact absurd isId (other order isLast)

end Submitters

variable [PriceOperations Price]

namespace OrderBook

/-- The quantity resting under a resting order's id is that order's. -/
theorem restingQuantity_of_mem {book : OrderBook Price} (valid : book.Valid)
    {resting : Order Price} (member : resting ∈ book.restingOrders) :
    book.restingQuantity resting.orderId = resting.quantity := by
  rw [restingQuantity, List.filter_tag_eq valid.nodup_restingIds member]
  simp

theorem restingQuantity_nonneg {book : OrderBook Price} (valid : book.Valid) (orderId : String) :
    0 ≤ book.restingQuantity orderId := by
  by_cases rests : orderId ∈ book.restingIds
  · obtain ⟨resting, member, rfl⟩ := List.mem_map.mp rests
    rw [restingQuantity_of_mem valid member]
    exact (valid.resting_positive resting member).le
  · rw [restingQuantity_of_notMem rests]

/-- An id rests when something rests under it. -/
theorem restingQuantity_pos_iff {book : OrderBook Price} (valid : book.Valid) (orderId : String) :
    0 < book.restingQuantity orderId ↔ orderId ∈ book.restingIds := by
  constructor
  · intro positive
    by_contra absent
    rw [restingQuantity_of_notMem absent] at positive
    exact lt_irrefl _ positive
  · intro rests
    obtain ⟨resting, member, rfl⟩ := List.mem_map.mp rests
    rw [restingQuantity_of_mem valid member]
    exact valid.resting_positive resting member

end OrderBook

theorem SubmitEffect.trades_positive {source target : OrderBook Price} {record : Record Price}
    {order : Order Price} (effect : SubmitEffect source record target order)
    (valid : source.Valid) : ∀ trade ∈ record.trades, 0 < trade.quantity := by
  have positive := OrderBook.submitTo_trades_positive valid (BookSide.ofOrder order.side) order
    record.timestamp
  rwa [OrderBook.submitTo_trades _ _ _ valid.wired, ← effect.trades] at positive

/-- The trades of a submit take no more than what rests. -/
theorem SubmitEffect.covered {source target : OrderBook Price} {record : Record Price}
    {order : Order Price} (effect : SubmitEffect source record target order)
    (valid : source.Valid) (orderId : String) :
    tradedAs Trade.restingOrderId record.trades orderId ≤ source.restingQuantity orderId := by
  have given := OrderBook.restingQuantity_matched valid (BookSide.ofOrder order.side) order
    record.timestamp orderId
  have left := OrderBook.restingQuantity_nonneg
    (valid.matched (BookSide.ofOrder order.side) order record.timestamp) orderId
  rw [effect.trades, tradedAs_resting]
  omega

/-- The trades of a submit name different resting orders. -/
theorem SubmitEffect.nodup_hits {source target : OrderBook Price} {record : Record Price}
    {order : Order Price} (effect : SubmitEffect source record target order)
    (valid : source.Valid) : (record.trades.map Trade.restingOrderId).Nodup := by
  have ids := valid.nodup_restingIds
  rw [OrderBook.restingIds, ((source.restingOrders_perm (BookSide.ofOrder order.side)).map
    Order.orderId).nodup_iff, OrderBook.resting_split source _ order, List.map_append,
    List.map_append] at ids
  have openIds := ids.of_append_right.of_append_left
  rw [effect.trades, fillTrades_resting, nodeFills_eq]
  exact openIds.sublist ((fills_are_first _ _).sublist.map _)

/-- A trade is all that is traded under its resting order's id. -/
theorem SubmitEffect.tradedAs_hit {source target : OrderBook Price} {record : Record Price}
    {order : Order Price} (effect : SubmitEffect source record target order)
    (valid : source.Valid) {trade : Trade Price} (member : trade ∈ record.trades) :
    tradedAs Trade.restingOrderId record.trades trade.restingOrderId = trade.quantity := by
  rw [tradedAs, List.filter_tag_eq (effect.nodup_hits valid) member]
  simp

/-! ### Resting orders over a run -/

/-- What rests after matching rested before, with at least the quantity. -/
theorem OrderBook.matched_resting_from {book : OrderBook Price} (valid : book.Valid)
    (side : BookSide) (order : Order Price) (timestamp : Nat) (other : BookSide)
    {resting : Order Price} (member : resting ∈ (book.matched side order timestamp).resting other) :
    ∃ old ∈ book.resting other, ∃ amount, 0 ≤ amount ∧ resting = old.reduceQuantity amount := by
  have same : ∀ resting : Order Price, resting = resting.reduceQuantity 0 := by
    simp [Order.reduceQuantity]
  revert other
  refine side.forall_of_opposite ?_ ?_
  · intro member
    rw [matched_resting_self] at member
    exact ⟨resting, member, 0, le_rfl, same resting⟩
  · intro member
    rw [matched_resting_opposite valid.wired] at member
    rw [resting_split book side order]
    rcases List.mem_append.mp member with left | shut
    · rcases mem_leftover left with unchanged | ⟨item, inOpen, amount, positive, rfl⟩
      · exact ⟨resting, List.mem_append_left _ unchanged, 0, le_rfl, same resting⟩
      · exact ⟨item, List.mem_append_left _ inOpen, amount, positive.le, rfl⟩
    · exact ⟨resting, List.mem_append_right _ shut, 0, le_rfl, same resting⟩

theorem OrderBook.matched_remainder {records : List (Record Price)} {book : OrderBook Price}
    (valid : book.Valid) (side : BookSide) (order : Order Price) (timestamp : Nat)
    (remainders : ∀ resting ∈ book.restingOrders, Remainder records resting) :
    ∀ resting ∈ (book.matched side order timestamp).restingOrders,
      Remainder records resting := by
  intro resting member
  have traced : ∀ other, resting ∈ (book.matched side order timestamp).resting other →
      Remainder records resting := by
    intro other inSide
    obtain ⟨old, inBook, amount, nonneg, rfl⟩ :=
      matched_resting_from valid side order timestamp other inSide
    exact (remainders old ((book.restingOrders_perm other).mem_iff.mpr
      (List.mem_append_left _ inBook))).reduce nonneg
  exact (List.mem_append.mp member).elim (traced .bid) (traced .ask)

theorem bookRun_remainder {records : List (Record Price)} {book : OrderBook Price}
    (run : BookRun records book) (fresh : FreshIds records) (sound : NoNegativeRemainder records)
    (inPlace : InPlace records) : ∀ resting ∈ book.restingOrders, Remainder records resting := by
  refine bookRun_invariant (fun records book => ∀ resting ∈ book.restingOrders,
    Remainder records resting) (fun _ member => nomatch member) ?_ run fresh sound inPlace
  intro records source record target reached _ _ _ step remainders
  have valid := reached.valid
  cases step_effect valid.wired step with
  | submit order isSubmit outcome =>
    have effect := submit_effect valid.wired step isSubmit
    have matched := OrderBook.matched_remainder valid (BookSide.ofOrder order.side) order
      record.timestamp remainders
    rw [effect.book]
    intro resting member
    split_ifs at member with rests
    · rcases List.mem_cons.mp ((OrderBook.rest_restingOrders _ _ _).mem_iff.mp member) with
        rfl | old
      · exact ⟨order, mem_submitted_append.mpr (.inr isSubmit), _,
          OrderBook.filledBy_nonneg valid _ order, rfl⟩
      · exact (matched resting old).later [record]
    · exact (matched resting member).later [record]
  | cancel nodeId side node inNodes isCancel after erased book result events =>
    intro resting member
    rw [book] at member
    refine (remainders resting ?_).later [record]
    exact (OrderBook.erased_restingOrders valid.wired inNodes erased).mem_iff.mpr
      (List.mem_cons_of_mem _ member)
  | missing orderId nodeId isCancel notResting unchanged result events =>
    intro resting member
    rw [unchanged] at member
    exact (remainders resting member).later [record]

/-- Every order rests on its own side of the book. -/
theorem bookRun_own_sides {records : List (Record Price)} {book : OrderBook Price}
    (run : BookRun records book) (fresh : FreshIds records) (sound : NoNegativeRemainder records)
    (inPlace : InPlace records) :
    ∀ side, ∀ resting ∈ book.resting side, BookSide.ofOrder resting.side = side := by
  refine bookRun_invariant (fun _ book => ∀ side, ∀ resting ∈ book.resting side,
    BookSide.ofOrder resting.side = side) ?_ ?_ run fresh sound inPlace
  · intro side resting member
    cases side <;> cases member
  intro records source record target reached _ _ _ step own
  have valid := reached.valid
  cases step_effect valid.wired step with
  | submit order isSubmit _ =>
    have effect := submit_effect valid.wired step isSubmit
    have matched : ∀ side, ∀ resting ∈ (source.matched (BookSide.ofOrder order.side) order
        record.timestamp).resting side, BookSide.ofOrder resting.side = side := by
      intro side resting member
      obtain ⟨old, inBook, _, _, rfl⟩ :=
        OrderBook.matched_resting_from valid _ order record.timestamp side member
      exact own side old inBook
    intro side resting member
    rw [effect.book] at member
    split_ifs at member with rests
    · revert side
      refine (BookSide.ofOrder order.side).forall_of_opposite ?_ ?_
      · intro member
        rcases List.mem_cons.mp
            (((OrderBook.rest_nodes_self _ _ _).map RestingNode.order).mem_iff.mp member)
          with rfl | old
        · rfl
        · exact matched _ resting old
      · intro member
        rw [OrderBook.resting, OrderBook.rest_nodes_opposite] at member
        exact matched _ resting member
    · exact matched side resting member
  | cancel nodeId side node inNodes isCancel after erased book result events =>
    intro other resting member
    rw [book] at member
    refine own other resting ?_
    revert other
    refine side.forall_of_opposite ?_ ?_
    · intro member
      have inAfter : resting ∈ after.resting side := member
      rw [OrderBook.resting, erased.nodes] at inAfter
      exact (List.filter_sublist.map _).subset inAfter
    · intro member
      have inAfter : resting ∈ after.resting side.opposite := member
      rwa [OrderBook.resting, erased.nodes_opposite] at inAfter
  | missing orderId nodeId isCancel notResting unchanged result events =>
    rw [unchanged]
    exact own

/-- What rests under an id is at most what was submitted under it. -/
theorem bookRun_restingQuantity_lt {records : List (Record Price)} {book : OrderBook Price}
    (run : BookRun records book) (fresh : FreshIds records) (sound : NoNegativeRemainder records)
    (inPlace : InPlace records) {bound : Int} (positive : 0 < bound)
    (below : ∀ order ∈ submitted records, order.quantity < bound) (orderId : String) :
    book.restingQuantity orderId < bound := by
  by_cases rests : orderId ∈ book.restingIds
  · obtain ⟨resting, member, rfl⟩ := List.mem_map.mp rests
    have valid := (bookRun_reached run fresh sound inPlace).valid
    obtain ⟨order, isSubmitted, filled, nonneg, isRemainder⟩ :=
      bookRun_remainder run fresh sound inPlace resting member
    have orderBelow := below order isSubmitted
    rw [OrderBook.restingQuantity_of_mem valid member, isRemainder, Order.reduceQuantity_quantity]
    omega
  · rwa [OrderBook.restingQuantity_of_notMem rests]

end MarketSandbox
