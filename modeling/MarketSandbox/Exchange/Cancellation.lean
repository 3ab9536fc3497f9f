/-
This file characterises a cancel by what clients have seen. A cancel succeeds
exactly when the id was reported to rest, has not been cancelled successfully
since, and has not been traded down to nothing since. It touches nothing else,
and right after a submit that was queued it undoes the submit. The last result
rests on a fact of its own: the nodes of a valid book determine its levels and
its order index.
-/

import MarketSandbox.Exchange.Submitters

namespace MarketSandbox

open GreedyFill

variable {Price : Type}

/-! ### The nodes determine the book -/

namespace OrderBook

section Nodes

variable [PriceOperations Price]

/-- Two books hold the same levels and the same index. -/
structure SameBook (first second : OrderBook Price) : Prop where
  bids : first.bids = second.bids
  asks : first.asks = second.asks
  orderIndex : first.orderIndex = second.orderIndex

theorem Valid.sameBook {first second : OrderBook Price}
    (firstValid : first.Valid) (secondValid : second.Valid)
    (same : ∀ side, first.nodes side = second.nodes side) : SameBook first second := by
  have levels : ∀ side, first.levels side = second.levels side := fun side =>
    SortedMap.concat_injective (firstValid.fillable side).ownPrice
      (secondValid.fillable side).ownPrice (firstValid.nonempty side) (secondValid.nonempty side)
      (same side)
  have located : first.located = second.located := by
    rw [OrderBook.located, OrderBook.located, same, same]
  refine ⟨levels .bid, levels .ask, funext fun orderId => Option.ext fun location => ?_⟩
  rw [firstValid.indexes.lookup, secondValid.indexes.lookup, located]

/-- A node's order id determines the node. -/
theorem Valid.node_of_orderId {book : OrderBook Price} (valid : book.Valid)
    {side other : BookSide} {node otherNode : RestingNode Price} (member : node ∈ book.nodes side)
    (otherMember : otherNode ∈ book.nodes other)
    (same : node.order.orderId = otherNode.order.orderId) : side = other ∧ node = otherNode := by
  have found := (valid.indexes.lookup _ _).mpr
    ((book.mem_located _).mpr ⟨side, node, member, rfl⟩)
  have otherFound := (valid.indexes.lookup _ _).mpr
    ((book.mem_located _).mpr ⟨other, otherNode, otherMember, rfl⟩)
  rw [same, otherFound, Option.some_inj, OrderLocation.mk.injEq] at found
  obtain ⟨sameTag, _, sameAddress⟩ := found
  have sameSide : side = other := by
    rw [← BookSide.ofOrder_tag side, ← sameTag, BookSide.ofOrder_tag]
  subst sameSide
  have distinct := ((book.located_perm side).map fun entry => entry.2.it).nodup_iff.mp
    valid.addresses
  rw [List.map_append, List.map_map] at distinct
  exact ⟨rfl, List.inj_on_of_nodup_map distinct.of_append_left member otherMember
    sameAddress.symm⟩

end Nodes

variable [PriceOperations Price]

/-- Erasing a node removes its order and leaves the others in their order. -/
theorem Erased.resting_filter {book after : OrderBook Price} (valid : book.Valid) {side : BookSide}
    {node : RestingNode Price} (member : node ∈ book.nodes side)
    (erased : Erased book side node after) (other : BookSide) :
    after.resting other =
      (book.resting other).filter fun order => order.orderId ≠ node.order.orderId := by
  revert other
  refine side.forall_of_opposite ?_ ?_
  · rw [resting, resting, erased.nodes, List.filter_map]
    refine congrArg _ (List.filter_congr fun kept inNodes => ?_)
    have sameNode : kept.address = node.address ↔ kept.order.orderId = node.order.orderId := by
      constructor
      · intro same
        rw [node_unique valid.wired inNodes member same]
      · intro same
        rw [(valid.node_of_orderId inNodes member same).2]
    simp only [Function.comp_apply, ne_eq, sameNode]
  · rw [resting, erased.nodes_opposite, ← resting, eq_comm, List.filter_eq_self]
    intro order inResting
    obtain ⟨kept, inNodes, rfl⟩ := List.mem_map.mp inResting
    refine decide_eq_true fun same => ?_
    have sides := (valid.node_of_orderId inNodes member same).1
    cases side <;> cases sides

/-! ### Cancelling right after resting -/

/-- Cancelling an order right after it came to rest leaves the book as it was. -/
theorem cancel_rest {book : OrderBook Price} (valid : book.Valid) (side : BookSide)
    (order : Order Price) (timestamp : Nat) (fresh : order.orderId ∉ book.located.map Prod.fst)
    (compares : ∀ resting ∈ book.resting side, Compares resting.price order.price)
    (positive : 0 < order.quantity) :
    ∃ outcome, (book.rest side order).cancel order.orderId timestamp = some outcome ∧
      SameBook outcome.book book := by
  have restValid := valid.rest side order fresh compares positive
  obtain ⟨front, back, split, inserted, _⟩ :=
    (book.levels side).concat_upsert_split order.price ⟨book.nextNode, order⟩
  have restNodes : (book.rest side order).nodes side =
      front ++ ⟨book.nextNode, order⟩ :: back := by
    rw [nodes, rest_levels_self, inserted]
  have member : (⟨book.nextNode, order⟩ : RestingNode Price) ∈ (book.rest side order).nodes side :=
    restNodes ▸ List.mem_append_right _ List.mem_cons_self
  obtain ⟨after, erased, outcome⟩ := cancel_resting restValid.wired member timestamp
  refine ⟨_, outcome, (restValid.erased member erased).sameBook valid ?_⟩
  refine side.forall_of_opposite ?_ ?_
  · have older : ∀ node ∈ front ++ back, node.address ≠ book.nextNode := by
      intro node inBook same
      rw [← split] at inBook
      have less := valid.allocated _ ((book.mem_located _).mpr ⟨side, node, inBook, rfl⟩)
      exact absurd same less.ne
    have keeps : ∀ nodes : List (RestingNode Price), (∀ node ∈ nodes, node ∈ front ++ back) →
        nodes.filter (fun node => node.address ≠ book.nextNode) = nodes := fun nodes inBoth =>
      List.filter_eq_self.mpr fun node member =>
        decide_eq_true (older node (inBoth node member))
    have afterNodes : after.nodes side = front ++ back := by
      rw [erased.nodes, restNodes, List.filter_append, List.filter_cons_of_neg (by simp),
        keeps front fun _ member => List.mem_append_left _ member,
        keeps back fun _ member => List.mem_append_right _ member]
    have bookNodes : book.nodes side = front ++ back := split
    rw [bookNodes, ← afterNodes]
    cases side <;> rfl
  · have opposite : after.nodes side.opposite = book.nodes side.opposite := by
      rw [erased.nodes_opposite, rest_nodes_opposite]
    rw [← opposite]
    cases side <;> rfl

theorem conclude_orderId (book : OrderBook Price) (side : BookSide) (order : Order Price)
    (timestamp : Nat) (state : MatchState Price) :
    (book.conclude side order timestamp state).result.orderId = order.orderId := by
  unfold conclude
  by_cases market : order.orderType = .market
  · by_cases full : state.filledQty = order.quantity <;>
      simp [market, full, EngineResult.initial]
  · by_cases full : state.filledQty = order.quantity <;>
      simp [market, full, EngineResult.initial]

end OrderBook

/-! ### What clients have seen of an id -/

section History

variable [LT Price]

/-- The submit returned an id with a status that says the order rests, with a quantity. -/
def Record.RestsAs (record : Record Price) (orderId : String) (quantity : Int) : Prop :=
  ∃ order, record.operation = .submit order ∧ record.result.orderId = orderId ∧
    (record.result.status = .queued ∨ record.result.status = .partialFill) ∧
    quantity = order.quantity - record.result.filledQuantity

/-- The cancel of an id succeeded. -/
def Record.Cancels (record : Record Price) (orderId : String) : Prop :=
  (∃ nodeId, record.operation = .cancel orderId nodeId) ∧ record.result.cancelSuccessful = true

/-- An id came to rest, has not been cancelled successfully since, and has been traded since for
less than the quantity it came to rest with. -/
def Live (records : List (Record Price)) (orderId : String) : Prop :=
  ∃ front record back quantity, records = front ++ record :: back ∧
    record.RestsAs orderId quantity ∧ (∀ later ∈ back, ¬ later.Cancels orderId) ∧
    tradedAs Trade.restingOrderId (back.flatMap Record.trades) orderId < quantity

/-- What the run so far says about the quantities resting in the book. -/
structure Traced (records : List (Record Price)) (book : OrderBook Price) : Prop where
  known : ∀ record ∈ records, ∀ orderId quantity, record.RestsAs orderId quantity →
    orderId ∈ (submitted records).map Order.orderId
  cancelled : ∀ front record back orderId quantity, records = front ++ record :: back →
    record.RestsAs orderId quantity → (∃ later ∈ back, later.Cancels orderId) →
    book.restingQuantity orderId = 0
  remains : ∀ front record back orderId quantity, records = front ++ record :: back →
    record.RestsAs orderId quantity → (∀ later ∈ back, ¬ later.Cancels orderId) →
    book.restingQuantity orderId =
      quantity - tradedAs Trade.restingOrderId (back.flatMap Record.trades) orderId
  rested : ∀ orderId ∈ book.restingIds, ∃ record ∈ records, ∃ quantity,
    record.RestsAs orderId quantity

end History

variable [PriceOperations Price] {source target : OrderBook Price} {record : Record Price}

/-- A submit reports the id it was given. -/
theorem submit_orderId (step : (bookSystem Price).step source record target) {order : Order Price}
    (isSubmit : record.operation = .submit order) : record.result.orderId = order.orderId := by
  obtain ⟨_, _, performed⟩ := step
  rw [isSubmit] at performed
  have outcome := Option.some.inj performed
  rw [OrderBook.submit_eq] at outcome
  rw [show record.result = (source.submitTo (BookSide.ofOrder order.side) order
    record.timestamp).result by rw [outcome]]
  exact OrderBook.conclude_orderId _ _ _ _ _

/-- What a step does to the quantity resting under an id that it does not submit. -/
theorem restingQuantity_step (valid : source.Valid)
    (step : (bookSystem Price).step source record target) {orderId : String}
    (other : ∀ order, record.operation = .submit order → order.orderId ≠ orderId) :
    (record.Cancels orderId → target.restingQuantity orderId = 0) ∧
      (¬ record.Cancels orderId → target.restingQuantity orderId =
        source.restingQuantity orderId -
          tradedAs Trade.restingOrderId record.trades orderId) := by
  cases step_effect valid.wired step with
  | submit order isSubmit outcome =>
    have effect := submit_effect valid.wired step isSubmit
    constructor
    · rintro ⟨⟨nodeId, isCancel⟩, _⟩
      rw [isSubmit] at isCancel
      cases isCancel
    · intro _
      rw [effect.restingQuantity valid, if_neg fun both => other order isSubmit both.2, add_zero]
  | cancel nodeId side node resting isCancel after erased book result events =>
    have quantity : target.restingQuantity orderId =
        if node.order.orderId = orderId then 0 else source.restingQuantity orderId := by
      rw [← OrderBook.restingQuantity_erased valid resting erased, book]
      rfl
    rw [quantity, Record.trades_of_cancel events]
    constructor
    · rintro ⟨⟨otherNode, sameCancel⟩, _⟩
      rw [isCancel] at sameCancel
      rw [if_pos (Operation.cancel.inj sameCancel).1]
    · intro kept
      have different : node.order.orderId ≠ orderId := by
        rintro rfl
        exact kept ⟨⟨nodeId, isCancel⟩, by rw [result]⟩
      rw [if_neg different]
      simp [tradedAs]
  | missing cancelledId nodeId isCancel notResting unchanged result events =>
    rw [unchanged, Record.trades_of_missing events]
    constructor
    · rintro ⟨_, successful⟩
      rw [result] at successful
      cases successful
    · intro _
      simp [tradedAs]

/-- No id gains quantity by trading. -/
theorem traded_nonneg (valid : source.Valid) (step : (bookSystem Price).step source record target)
    (orderId : String) : 0 ≤ tradedAs Trade.restingOrderId record.trades orderId := by
  cases step_effect valid.wired step with
  | submit order isSubmit outcome =>
    exact tradedAs_nonneg ((submit_effect valid.wired step isSubmit).trades_positive valid) orderId
  | cancel nodeId side node resting isCancel after erased book result events =>
    rw [Record.trades_of_cancel events]
    exact le_rfl
  | missing cancelledId nodeId isCancel notResting unchanged result events =>
    rw [Record.trades_of_missing events]
    exact le_rfl

/-- The order that a submit leaves to rest rests with the quantity the submit reports. -/
theorem restingQuantity_rests (valid : source.Valid)
    (step : (bookSystem Price).step source record target) {orderId : String} {quantity : Int}
    (rests : record.RestsAs orderId quantity) (fresh : orderId ∉ source.restingIds) :
    target.restingQuantity orderId = quantity := by
  obtain ⟨order, isSubmit, isId, status, rfl⟩ := rests
  have effect := submit_effect valid.wired step isSubmit
  have nothing := OrderBook.restingQuantity_of_notMem fresh
  have covered := effect.covered valid orderId
  have nonneg := traded_nonneg valid step orderId
  rw [submit_orderId step isSubmit] at isId
  rw [effect.restingQuantity valid, if_pos ⟨status, isId⟩]
  omega

/-- Every id that rests after a step rested before it or is reported to rest by it. -/
theorem restingIds_step (valid : source.Valid)
    (step : (bookSystem Price).step source record target) {orderId : String}
    (member : orderId ∈ target.restingIds) :
    orderId ∈ source.restingIds ∨ ∃ quantity, record.RestsAs orderId quantity := by
  rw [OrderBook.restingIds_eq] at member ⊢
  cases step_effect valid.wired step with
  | submit order isSubmit outcome =>
    have effect := submit_effect valid.wired step isSubmit
    rw [effect.book] at member
    split_ifs at member with rests
    · have located := ((source.matched (BookSide.ofOrder order.side) order
        record.timestamp).located_rest (BookSide.ofOrder order.side)
          (order.reduceQuantity (source.filledBy (BookSide.ofOrder order.side) order))).map Prod.fst
      rcases List.mem_cons.mp (located.mem_iff.mp member) with own | old
      · exact .inr ⟨_, order, isSubmit, (submit_orderId step isSubmit).trans own.symm,
          effect.rests_iff.mp rests, rfl⟩
      · rw [← OrderBook.restingIds_eq] at old ⊢
        exact .inl (OrderBook.matched_restingIds valid.wired _ order record.timestamp _ old)
    · rw [← OrderBook.restingIds_eq] at member ⊢
      exact .inl (OrderBook.matched_restingIds valid.wired _ order record.timestamp _ member)
  | cancel nodeId side node resting isCancel after erased book result events =>
    rw [book] at member
    have located := (OrderBook.located_erased valid.wired resting erased).map Prod.fst
    exact .inl (located.mem_iff.mpr (List.mem_cons_of_mem _ member))
  | missing cancelledId nodeId isCancel notResting unchanged result events =>
    rw [unchanged] at member
    exact .inl member

/-- What comes to rest was submitted. -/
theorem Record.RestsAs.submitted (step : (bookSystem Price).step source record target)
    {orderId : String} {quantity : Int} (rests : record.RestsAs orderId quantity) :
    ∃ order, record.operation = .submit order ∧ order.orderId = orderId := by
  obtain ⟨order, isSubmit, isId, _⟩ := rests
  exact ⟨order, isSubmit, (submit_orderId step isSubmit).symm.trans isId⟩

theorem Traced.step {records : List (Record Price)} (traced : Traced records source)
    (reached : Reached records source) (fresh : FreshIds (records ++ [record]))
    (sound : NoNegativeRemainder (records ++ [record])) (inPlace : record.RestsInPlace)
    (step : (bookSystem Price).step source record target) :
    Traced (records ++ [record]) target := by
  have valid := reached.valid
  have targetValid := (reached.step fresh sound inPlace step).valid
  have other : ∀ orderId, orderId ∈ (submitted records).map Order.orderId →
      ∀ order, record.operation = .submit order → order.orderId ≠ orderId := by
    rintro orderId known order isSubmit rfl
    exact fresh.last isSubmit known
  constructor
  · intro earlier member orderId quantity rests
    rw [submitted_append, List.map_append, List.mem_append]
    rcases List.mem_append.mp member with old | isLast
    · exact .inl (traced.known earlier old orderId quantity rests)
    · obtain rfl := List.mem_singleton.mp isLast
      obtain ⟨order, isSubmit, rfl⟩ := rests.submitted step
      refine .inr (List.mem_map_of_mem (List.mem_filterMap.mpr ⟨_, List.mem_singleton_self _, ?_⟩))
      rw [isSubmit]
      rfl
  · intro front earlier back orderId quantity split rests hasCancel
    rcases List.eq_nil_or_concat back with rfl | ⟨middle, last, rfl⟩
    · obtain ⟨_, member, _⟩ := hasCancel
      cases member
    · rw [List.concat_eq_append, ← List.cons_append, ← List.append_assoc] at split
      obtain ⟨earlierSplit, same⟩ := List.append_inj' split rfl
      obtain rfl := List.singleton_inj.mp same
      have known := traced.known earlier (earlierSplit ▸ List.mem_append_right _ List.mem_cons_self)
        orderId quantity rests
      obtain ⟨whenCancels, otherwise⟩ := restingQuantity_step valid step (other orderId known)
      by_cases cancels : record.Cancels orderId
      · exact whenCancels cancels
      · obtain ⟨later, member, isCancel⟩ := hasCancel
        rw [List.concat_eq_append] at member
        have inMiddle : later ∈ middle := by
          rcases List.mem_append.mp member with inMiddle | isLast
          · exact inMiddle
          · exact absurd (List.mem_singleton.mp isLast ▸ isCancel) cancels
        have before := traced.cancelled front earlier middle orderId quantity earlierSplit rests
          ⟨later, inMiddle, isCancel⟩
        have nonneg := OrderBook.restingQuantity_nonneg targetValid orderId
        have taken := traded_nonneg valid step orderId
        have quantity := otherwise cancels
        omega
  · intro front earlier back orderId quantity split rests noCancel
    rcases List.eq_nil_or_concat back with rfl | ⟨middle, last, rfl⟩
    · obtain ⟨rfl, same⟩ := List.append_inj' split rfl
      obtain rfl := List.singleton_inj.mp same
      have absent : orderId ∉ source.restingIds := by
        obtain ⟨order, isSubmit, rfl⟩ := rests.submitted step
        rw [OrderBook.restingIds_eq]
        exact fun member => fresh.last isSubmit (reached.known _ member)
      rw [restingQuantity_rests valid step rests absent]
      simp [tradedAs]
    · rw [List.concat_eq_append, ← List.cons_append, ← List.append_assoc] at split
      rw [List.concat_eq_append] at noCancel ⊢
      obtain ⟨earlierSplit, same⟩ := List.append_inj' split rfl
      obtain rfl := List.singleton_inj.mp same
      have known := traced.known earlier (earlierSplit ▸ List.mem_append_right _ List.mem_cons_self)
        orderId quantity rests
      have before := traced.remains front earlier middle orderId quantity earlierSplit rests
        fun later member => noCancel later (List.mem_append_left _ member)
      have last := (restingQuantity_step valid step (other orderId known)).2
        (noCancel record (List.mem_append_right _ List.mem_cons_self))
      rw [last, before, List.flatMap_append, tradedAs_append, List.flatMap_singleton]
      omega
  · intro orderId member
    rcases restingIds_step valid step member with old | ⟨quantity, rests⟩
    · obtain ⟨earlier, inRecords, quantity, rests⟩ := traced.rested orderId old
      exact ⟨earlier, List.mem_append_left _ inRecords, quantity, rests⟩
    · exact ⟨record, List.mem_append_right _ List.mem_cons_self, quantity, rests⟩

/-- Every run is traced. -/
theorem bookRun_traced {records : List (Record Price)} {book : OrderBook Price}
    (run : BookRun records book) (fresh : FreshIds records)
    (sound : NoNegativeRemainder records) (inPlace : InPlace records) : Traced records book := by
  refine bookRun_invariant Traced ?_ ?_ run fresh sound inPlace
  · exact ⟨fun _ member => (nomatch member), fun front _ _ _ _ split => by simp at split,
      fun front _ _ _ _ split => by simp at split, fun _ member => (nomatch member)⟩
  · intro records source record target reached fresh sound inPlace step traced
    exact traced.step reached fresh sound inPlace step

/-- An id rests exactly when it is live. -/
theorem Traced.live_iff {records : List (Record Price)} {book : OrderBook Price}
    (traced : Traced records book) (valid : book.Valid) (orderId : String) :
    orderId ∈ book.restingIds ↔ Live records orderId := by
  rw [← OrderBook.restingQuantity_pos_iff valid]
  constructor
  · intro positive
    obtain ⟨record, member, quantity, rests⟩ := traced.rested orderId
      ((OrderBook.restingQuantity_pos_iff valid orderId).mp positive)
    obtain ⟨front, back, split⟩ := List.append_of_mem member
    by_cases hasCancel : ∃ later ∈ back, later.Cancels orderId
    · rw [traced.cancelled front record back orderId quantity split rests hasCancel] at positive
      exact absurd positive (lt_irrefl 0)
    · have noCancel : ∀ later ∈ back, ¬ later.Cancels orderId := fun later inBack cancels =>
        hasCancel ⟨later, inBack, cancels⟩
      rw [traced.remains front record back orderId quantity split rests noCancel] at positive
      exact ⟨front, record, back, quantity, split, rests, noCancel, by omega⟩
  · rintro ⟨front, record, back, quantity, split, rests, noCancel, less⟩
    rw [traced.remains front record back orderId quantity split rests noCancel]
    omega

/-! ### Cancels -/

/-- Cancelling right after a submit that was queued restores the book. -/
theorem cancel_queued (valid : source.Valid) (step : (bookSystem Price).step source record target)
    {order : Order Price} (isSubmit : record.operation = .submit order)
    (queued : record.result.status = .queued) (wants : 0 < order.quantity)
    (newId : order.orderId ∉ source.restingIds) (inPlace : record.RestsInPlace)
    (timestamp : Nat) :
    ∃ outcome, target.cancel order.orderId timestamp = some outcome ∧
      outcome.book.SameBook source := by
  have effect := submit_effect valid.wired step isSubmit
  have rests := effect.rests_iff.mpr (.inl queued)
  have unfilled : source.filledBy (BookSide.ofOrder order.side) order = 0 := by
    have status := effect.status
    rw [queued, if_neg rests.2, if_neg rests.1] at status
    by_contra some
    rw [if_neg some] at status
    cases status
  have matchedSame := OrderBook.matched_nodes_of_unfilled valid (BookSide.ofOrder order.side)
    order record.timestamp wants unfilled
  have matchedValid := valid.matched (BookSide.ofOrder order.side) order record.timestamp
  have matchedNew : order.orderId ∉ (source.matched (BookSide.ofOrder order.side) order
      record.timestamp).located.map Prod.fst := by
    rw [← OrderBook.restingIds_eq]
    exact fun member => newId (OrderBook.matched_restingIds valid.wired _ order _ _ member)
  have compares : ∀ resting ∈ (source.matched (BookSide.ofOrder order.side) order
      record.timestamp).resting (BookSide.ofOrder order.side),
      Compares resting.price order.price := by
    obtain rfl := step.1
    rw [OrderBook.matched_resting_self]
    exact inPlace order isSubmit rests
  have isTarget : target = (source.matched (BookSide.ofOrder order.side) order
      record.timestamp).rest (BookSide.ofOrder order.side) order := by
    rw [effect.book, if_pos rests, unfilled]
    simp [Order.reduceQuantity]
  have sameMatched := matchedValid.sameBook valid matchedSame
  obtain ⟨restored, isRestored, sameBook⟩ := OrderBook.cancel_rest matchedValid
    (BookSide.ofOrder order.side) order timestamp matchedNew compares wants
  rw [isTarget]
  exact ⟨restored, isRestored, sameBook.bids.trans sameMatched.bids,
    sameBook.asks.trans sameMatched.asks, sameBook.orderIndex.trans sameMatched.orderIndex⟩

/-- As long as every order came to rest in place, a cancel succeeds exactly for a live id; on
failure it changes nothing and emits nothing; on success it removes exactly that order and emits
one top of book; and right after a submit that was queued it restores the book. -/
theorem cancel_iff_live {records : List (Record Price)} {book : OrderBook Price}
    (run : BookRun records book) (fresh : FreshIds records)
    (positive : PositiveQuantities records) (inPlace : InPlace records) (orderId : String)
    (timestamp : Nat) :
    ∃ outcome, book.cancel orderId timestamp = some outcome ∧
      (outcome.result.cancelSuccessful = true ↔ Live records orderId) ∧
      (outcome.result.cancelSuccessful = false → outcome.book = book ∧ outcome.events = []) ∧
      (outcome.result.cancelSuccessful = true →
        (∃ order ∈ book.restingOrders, order.orderId = orderId) ∧
        (∀ side, outcome.book.resting side =
          (book.resting side).filter fun order => order.orderId ≠ orderId) ∧
        ∃ top, outcome.events = [.topOfBook top]) ∧
      ∀ front record order, records = front ++ [record] → record.operation = .submit order →
        order.orderId = orderId → record.result.status = .queued →
          outcome.book.SameBook record.before := by
  have sound := positive.noNegativeRemainder
  have valid := (bookRun_reached run fresh sound inPlace).valid
  have live := (bookRun_traced run fresh sound inPlace).live_iff valid orderId
  rcases book.resting_or_missing orderId with ⟨side, node, member, rfl⟩ | missing
  · obtain ⟨after, erased, outcome⟩ := OrderBook.cancel_resting valid.wired member timestamp
    have restingNow := OrderBook.orderId_mem_restingIds member
    refine ⟨_, outcome, iff_of_true rfl (live.mp restingNow), fun failed => absurd failed (by simp),
      fun _ => ⟨List.mem_map.mp restingNow, fun other => ?_, _, rfl⟩, ?_⟩
    · rw [← erased.resting_filter valid member other]
      cases other <;> rfl
    · rintro front record order rfl isSubmit sameId queued
      obtain ⟨source, prior, step⟩ := run.last
      have reached := bookRun_reached prior fresh.earlier sound.earlier inPlace.earlier
      have wants := positive order (mem_submitted_append.mpr (.inr isSubmit))
      have newId : order.orderId ∉ source.restingIds := by
        rw [OrderBook.restingIds_eq]
        exact fun member => fresh.last isSubmit (reached.known _ member)
      obtain ⟨restored, isRestored, sameBook⟩ := cancel_queued reached.valid step isSubmit queued
        wants newId inPlace.last timestamp
      rw [sameId, outcome] at isRestored
      rw [Option.some.inj isRestored, step.1]
      exact sameBook
  · have absent : orderId ∉ book.restingIds := by rwa [OrderBook.restingIds_eq]
    refine ⟨_, OrderBook.cancel_missing valid.wired orderId timestamp missing,
      iff_of_false (by simp [EngineResult.initial]) fun isLive => absent (live.mpr isLive),
      fun _ => ⟨rfl, rfl⟩, fun succeeded => by simp [EngineResult.initial] at succeeded, ?_⟩
    rintro front record order rfl isSubmit rfl queued
    obtain ⟨source, prior, step⟩ := run.last
    refine absurd (live.mpr ⟨front, record, [], _, rfl,
      ⟨order, isSubmit, submit_orderId step isSubmit, .inl queued, rfl⟩,
      fun _ member => absurd member List.not_mem_nil, ?_⟩) absent
    have reached := bookRun_reached prior fresh.earlier sound.earlier inPlace.earlier
    have effect := submit_effect reached.valid.wired step isSubmit
    have rests := effect.rests_iff.mpr (.inl queued)
    have inSubmitted : order ∈ submitted (front ++ [record]) :=
      mem_submitted_append.mpr (.inr isSubmit)
    have left := OrderBook.remainder_of_nonneg _ _ _ (positive order inSubmitted).le rests
    rw [effect.filled]
    simp only [List.flatMap_nil, tradedAs, List.filter_nil, List.map_nil, List.sum_nil]
    omega

theorem cancel_iff_live_sample : Live Sample.unpriced "ORD-0" := by
  obtain ⟨outcome, isOutcome, live, _⟩ := cancel_iff_live Sample.unpricedRun Sample.unpricedFresh
    Sample.unpricedPositive Sample.unpricedInPlace "ORD-0" 4
  refine live.mp ?_
  have cancelled : (Sample.unpricedBid.after.cancel "ORD-0" 4).map
      (fun outcome => outcome.result.cancelSuccessful) = some true := by decide +kernel
  rw [isOutcome] at cancelled
  exact Option.some.inj cancelled

namespace Sample

/-- Asks at 100, NaN and 99 rest, the second in the level of the first, and the first is
cancelled. -/
def hundredAsk : Record (WithNaN ℚ) :=
  submitRecord .empty 1 ⟨.ask, .limit, .number 100, 5, "ORD-0", "mm-1"⟩

def strayAsk : Record (WithNaN ℚ) :=
  submitRecord hundredAsk.after 2 ⟨.ask, .limit, .nan, 5, "ORD-1", "mm-2"⟩

def betterAsk : Record (WithNaN ℚ) :=
  submitRecord strayAsk.after 3 ⟨.ask, .limit, .number 99, 5, "ORD-2", "mm-1"⟩

def freedLevel : Record (WithNaN ℚ) := cancelRecord betterAsk.after 4 "ORD-0" "mm-1" (by decide)

/-- The four steps in order. -/
def stray : List (Record (WithNaN ℚ)) := [hundredAsk, strayAsk, betterAsk, freedLevel]

theorem strayRun : BookRun stray freedLevel.after :=
  ((((Transition.Run.start rfl).next (submitRecord_step _ _ _)).next
    (submitRecord_step _ _ _)).next (submitRecord_step _ _ _)).next (cancelRecord_step _ _ _ _ _)

end Sample

/-- The cancel of a live order whose price is NaN looks in the level at 99, where the order's node
is not: it is undefined. -/
theorem nan_cancel_undefined :
    BookRun Sample.stray Sample.freedLevel.after ∧ FreshIds Sample.stray ∧
      PositiveQuantities Sample.stray ∧ Live Sample.stray "ORD-1" ∧
      Sample.freedLevel.after.cancel "ORD-1" 5 = none := by
  refine ⟨Sample.strayRun, by decide, by decide, ?_, by decide⟩
  refine ⟨[Sample.hundredAsk], Sample.strayAsk, [Sample.betterAsk, Sample.freedLevel], 5, rfl,
    ⟨_, rfl, rfl, .inl (by decide), by decide⟩, ?_, by decide⟩
  intro later member cancels
  obtain ⟨⟨nodeId, isCancel⟩, _⟩ := cancels
  rcases List.mem_cons.mp member with rfl | isLast
  · cases isCancel
  · obtain rfl := List.mem_singleton.mp isLast
    exact absurd (Operation.cancel.inj isCancel).1 (by decide)

end MarketSandbox
