/-
This file compares the user's list of open orders with the book. The page takes
each trade from the order it names, lists what the user rests, and drops what
the user cancels. A cancel by another node is passed over although the exchange
accepts it, so the list is the user's resting orders as long as nobody else
cancels one of them and no number on the way is rounded.
-/

import MarketSandbox.Exchange.Limits
import MarketSandbox.Gateway.Delivery
import MarketSandbox.Web.Positions

namespace MarketSandbox

variable {Price : Type}

/-! ### What a batch does to the list -/

/-- Take a traded quantity from an open order. -/
def OpenOrder.taken (quantity : Int) (entry : OpenOrder Price) : Option (OpenOrder Price) :=
  if SafeInteger.sub entry.remaining quantity ≤ 0 then none
  else some { entry with remaining := SafeInteger.sub entry.remaining quantity }

theorem get_takeOpen (openOrders : InsertionMap String (OpenOrder Price)) (restingId : String)
    (quantity : Int) (orderId : String) :
    (takeOpen openOrders restingId quantity).get orderId =
      if orderId = restingId then (openOrders.get orderId).bind (OpenOrder.taken quantity)
      else openOrders.get orderId := by
  rw [takeOpen]
  by_cases own : orderId = restingId
  · subst own
    rw [if_pos rfl]
    cases found : openOrders.get orderId with
    | none => exact found
    | some entry =>
      simp only [Option.bind_some, OpenOrder.taken]
      split_ifs
      · rw [InsertionMap.get_delete, Function.update_self]
      · rw [InsertionMap.get_set, Function.update_self]
  · rw [if_neg own]
    cases openOrders.get restingId with
    | none => rfl
    | some entry =>
      simp only
      split_ifs
      · rw [InsertionMap.get_delete, Function.update_of_ne own, InsertionMap.get_set,
          Function.update_of_ne own]
      · rw [InsertionMap.get_set, Function.update_of_ne own]

/-- Take the trades of a batch from the open orders. -/
def takeTrades (openOrders : InsertionMap String (OpenOrder Price))
    (trades : List (WireTrade Price)) : InsertionMap String (OpenOrder Price) :=
  trades.foldl (fun openOrders trade => takeOpen openOrders trade.resting trade.qty) openOrders

theorem get_takeTrades_of_notMem {openOrders : InsertionMap String (OpenOrder Price)}
    {trades : List (WireTrade Price)} {orderId : String}
    (unnamed : orderId ∉ trades.map WireTrade.resting) :
    (takeTrades openOrders trades).get orderId = openOrders.get orderId := by
  induction trades generalizing openOrders with
  | nil => rfl
  | cons trade rest inductionHypothesis =>
    rw [List.map_cons, List.mem_cons, not_or] at unnamed
    rw [takeTrades, List.foldl_cons]
    refine (inductionHypothesis unnamed.2).trans ?_
    rw [get_takeOpen, if_neg unnamed.1]

theorem get_takeTrades_of_mem {openOrders : InsertionMap String (OpenOrder Price)}
    {trades : List (WireTrade Price)} (nodup : (trades.map WireTrade.resting).Nodup)
    {trade : WireTrade Price} (member : trade ∈ trades) :
    (takeTrades openOrders trades).get trade.resting =
      (openOrders.get trade.resting).bind (OpenOrder.taken trade.qty) := by
  induction trades generalizing openOrders with
  | nil => cases member
  | cons head rest inductionHypothesis =>
    rw [List.map_cons, List.nodup_cons] at nodup
    rw [takeTrades, List.foldl_cons]
    rcases List.mem_cons.mp member with rfl | later
    · refine (get_takeTrades_of_notMem nodup.1).trans ?_
      rw [get_takeOpen, if_pos rfl]
    · refine (inductionHypothesis nodup.2 later).trans ?_
      have differ : trade.resting ≠ head.resting := fun same =>
        nodup.1 (same ▸ List.mem_map_of_mem later)
      rw [get_takeOpen, if_neg differ]

section Batches

variable [Ring Price] (roster : List RosterEntry)

theorem batch_openOrders (state : StatsState Price) (wire : WireBatch Price) :
    (state.batch roster wire).openOrders =
      followOrder (takeTrades state.openOrders wire.trades) wire := by
  have loop : ∀ (trades : List (WireTrade Price)) (state : StatsState Price),
      (trades.foldl (StatsState.trade roster) state).openOrders =
        takeTrades state.openOrders trades := by
    intro trades
    induction trades with
    | nil => exact fun _ => rfl
    | cons trade rest inductionHypothesis => exact fun state => inductionHypothesis _
  exact congrArg (followOrder · wire) (loop _ _)

end Batches

theorem copies_resting {node : String} {trades : List (Trade Price)}
    {wires : List (WireTrade Price)} (copies : List.Forall₂ (Copied node) trades wires) :
    wires.map WireTrade.resting = trades.map Trade.restingOrderId := by
  induction copies with
  | nil => rfl
  | cons copied _ inductionHypothesis =>
    rw [List.map_cons, List.map_cons, copied.resting, inductionHypothesis]

/-! ### What the list should hold -/

section Listed

variable [LinearOrder Price]

/-- The entry of the user's order that rests under an id, given the quantities that rest. -/
def Listed (records : List (Record Price)) (quantity : String → Int) (orderId : String)
    (entry : OpenOrder Price) : Prop :=
  ∃ order ∈ submitted records, order.orderId = orderId ∧ order.nodeId = "human" ∧
    0 < quantity orderId ∧
    entry = ⟨orderId, BookSide.ofOrder order.side, order.price, quantity orderId⟩

/-- The open orders are the user's resting orders, given the quantities that rest. -/
def Follows (records : List (Record Price)) (quantity : String → Int)
    (openOrders : InsertionMap String (OpenOrder Price)) : Prop :=
  ∀ orderId entry, openOrders.get orderId = some entry ↔ Listed records quantity orderId entry

/-- A list of open orders is exactly the user's orders resting in a book. -/
def OpenListRight (book : OrderBook Price) (openOrders : List (OpenOrder Price)) : Prop :=
  (openOrders.map OpenOrder.id).Nodup ∧
    ∀ entry, entry ∈ openOrders ↔ ∃ side, ∃ resting ∈ book.resting side,
      resting.nodeId = "human" ∧
        entry = ⟨resting.orderId, side, resting.price, resting.quantity⟩

end Listed

variable [PriceArithmetic Price] {records : List (Record Price)}

/-- The order that rests under a submitted order's id is that order with the quantity left. -/
theorem bookRun_resting_of_pos {book : OrderBook Price} (run : BookRun records book)
    (fresh : FreshIds records) (positive : PositiveQuantities records) {order : Order Price}
    (member : order ∈ submitted records) (rests : 0 < book.restingQuantity order.orderId) :
    ∃ resting ∈ book.resting (BookSide.ofOrder order.side), resting.orderId = order.orderId ∧
      resting.nodeId = order.nodeId ∧ resting.price = order.price ∧
      resting.quantity = book.restingQuantity order.orderId := by
  have sound := positive.noNegativeRemainder
  have valid := (bookRun_reached run fresh sound (.of_linear _)).valid
  obtain ⟨resting, inBook, isId⟩ :=
    List.mem_map.mp ((OrderBook.restingQuantity_pos_iff valid order.orderId).mp rests)
  have quantity := OrderBook.restingQuantity_of_mem valid inBook
  obtain ⟨origin, wasSubmitted, filled, _, isRemainder⟩ :=
    bookRun_remainder run fresh sound (.of_linear _) resting inBook
  have isOrigin : origin.orderId = resting.orderId := by
    rw [isRemainder]
    rfl
  obtain rfl := fresh.unique wasSubmitted member (isOrigin.trans isId)
  refine ⟨resting, ?_, isId, by rw [isRemainder]; rfl, by rw [isRemainder]; rfl, ?_⟩
  · have own := bookRun_own_sides run fresh sound (.of_linear _)
    have sameSide : resting.side = origin.side := by
      rw [isRemainder]
      rfl
    rcases List.mem_append.mp inBook with inBids | inAsks
    · rwa [← sameSide, own .bid resting inBids]
    · rwa [← sameSide, own .ask resting inAsks]
  · rw [← isId, quantity]

/-- The entries that the list should hold are the user's resting orders. -/
theorem listed_iff {book : OrderBook Price} (run : BookRun records book)
    (fresh : FreshIds records) (positive : PositiveQuantities records) (orderId : String)
    (entry : OpenOrder Price) :
    Listed records book.restingQuantity orderId entry ↔
      orderId = entry.id ∧ ∃ side, ∃ resting ∈ book.resting side, resting.nodeId = "human" ∧
        entry = ⟨resting.orderId, side, resting.price, resting.quantity⟩ := by
  have sound := positive.noNegativeRemainder
  have valid := (bookRun_reached run fresh sound (.of_linear _)).valid
  constructor
  · rintro ⟨order, member, rfl, isHuman, rests, rfl⟩
    obtain ⟨resting, inSide, isId, isNode, isPrice, isQuantity⟩ :=
      bookRun_resting_of_pos run fresh positive member rests
    refine ⟨rfl, _, resting, inSide, isNode.trans isHuman, ?_⟩
    rw [isId, isPrice, isQuantity]
  · rintro ⟨rfl, side, resting, inSide, isHuman, rfl⟩
    have inBook : resting ∈ book.restingOrders :=
      (book.restingOrders_perm side).mem_iff.mpr (List.mem_append_left _ inSide)
    have quantity := OrderBook.restingQuantity_of_mem valid inBook
    have rests := valid.resting_positive resting inBook
    have isSide := bookRun_own_sides run fresh sound (.of_linear _) side resting inSide
    obtain ⟨origin, wasSubmitted, filled, _, isRemainder⟩ :=
      bookRun_remainder run fresh sound (.of_linear _) resting inBook
    refine ⟨origin, wasSubmitted, ?_, ?_, by rwa [quantity], ?_⟩
    · rw [isRemainder]
      rfl
    · rw [← isHuman, isRemainder]
      rfl
    · rw [quantity, ← isSide, isRemainder]
      rfl

/-! ### One batch -/

/-- The condition on a step: no number is rounded when an order of the user's comes to rest or
trades, and nobody else cancels one. -/
def OpenListKept (record : Record Price) : Prop :=
  match record.operation with
  | .submit order =>
    (order.nodeId = "human" →
      record.result.status = .queued ∨ record.result.status = .partialFill →
      SafeInteger.sub (SafeInteger.toNumber order.quantity)
        (SafeInteger.toNumber record.result.filledQuantity) =
          order.quantity - record.result.filledQuantity) ∧
    ∀ trade ∈ record.trades, ∀ resting ∈ record.before.restingOrders,
      resting.orderId = trade.restingOrderId → resting.nodeId = "human" →
      SafeInteger.sub resting.quantity (SafeInteger.toNumber trade.quantity) =
        resting.quantity - trade.quantity
  | .cancel orderId nodeId =>
    ∀ resting ∈ record.before.restingOrders, resting.orderId = orderId →
      resting.nodeId = "human" → nodeId = "human"

/-- What is listed under an id that nothing rests under. -/
theorem not_listed {quantity : String → Int} {orderId : String} (nothing : quantity orderId ≤ 0)
    (entry : OpenOrder Price) : ¬ Listed records quantity orderId entry := by
  rintro ⟨_, _, _, _, rests, _⟩
  exact absurd rests (not_lt.mpr nothing)

theorem Follows.get_none {quantity : String → Int}
    {openOrders : InsertionMap String (OpenOrder Price)}
    (follows : Follows records quantity openOrders) {orderId : String}
    (nothing : quantity orderId ≤ 0) : openOrders.get orderId = none :=
  Option.eq_none_iff_forall_not_mem.mpr fun entry isEntry =>
    not_listed nothing entry ((follows orderId entry).mp isEntry)

theorem Listed.congr {quantity other : String → Int} {orderId : String}
    (same : quantity orderId = other orderId) (entry : OpenOrder Price) :
    Listed records quantity orderId entry ↔ Listed records other orderId entry := by
  rw [Listed, Listed, same]

theorem listed_append_iff {record : Record Price} {quantity : String → Int} {orderId : String}
    (other : ∀ order, record.operation = .submit order → order.orderId ≠ orderId)
    (entry : OpenOrder Price) :
    Listed (records ++ [record]) quantity orderId entry ↔
      Listed records quantity orderId entry := by
  constructor
  · rintro ⟨order, member, isId, isListed⟩
    rcases mem_submitted_append.mp member with old | isLast
    · exact ⟨order, old, isId, isListed⟩
    · exact absurd isId (other order isLast)
  · rintro ⟨order, member, isListed⟩
    exact ⟨order, mem_submitted_append.mpr (.inl member), isListed⟩

variable {source target : OrderBook Price} {record : Record Price}

/-- The trades of a submit are taken from the list as they are from the book. -/
theorem Follows.takeTrades (prior : BookRun records source)
    (step : (bookSystem Price).step source record target) (fresh : FreshIds records)
    (positive : PositiveQuantities records) {order : Order Price}
    (isSubmit : record.operation = .submit order) (kept : OpenListKept record)
    {wires : List (WireTrade Price)}
    (copies : List.Forall₂ (Copied order.nodeId) record.trades wires)
    {openOrders : InsertionMap String (OpenOrder Price)}
    (follows : Follows records source.restingQuantity openOrders) :
    Follows records (afterTrades source.restingQuantity record.trades)
      (MarketSandbox.takeTrades openOrders wires) := by
  have valid := (bookRun_reached prior fresh positive.noNegativeRemainder (.of_linear _)).valid
  have effect := submit_effect valid.wired step isSubmit
  obtain ⟨isBefore, _, _⟩ := step
  have exactly := (show _ ∧ _ by simpa only [OpenListKept, isSubmit] using kept).2
  have ids := copies_resting copies
  have nodup := effect.nodup_hits valid
  intro orderId entry
  by_cases named : orderId ∈ record.trades.map Trade.restingOrderId
  · obtain ⟨trade, inTrades, rfl⟩ := List.mem_map.mp named
    obtain ⟨wire, inWires, copied⟩ : ∃ wire ∈ wires, Copied order.nodeId trade wire := by
      obtain ⟨index, isIndex, isTrade⟩ := List.getElem_of_mem inTrades
      have isWire : index < wires.length := copies.length_eq ▸ isIndex
      refine ⟨wires.get ⟨index, isWire⟩, List.get_mem _ _, ?_⟩
      have copied := copies.get isIndex isWire
      rwa [List.get_eq_getElem, isTrade] at copied
    have taken := effect.tradedAs_hit valid inTrades
    have covered := effect.covered valid trade.restingOrderId
    have given := effect.trades_positive valid trade inTrades
    rw [taken] at covered
    rw [← copied.resting, get_takeTrades_of_mem (ids ▸ nodup) inWires, copied.resting, copied.qty]
    have left : afterTrades source.restingQuantity record.trades trade.restingOrderId =
        source.restingQuantity trade.restingOrderId - trade.quantity := by
      rw [afterTrades, taken]
    -- Only an order of the user's is listed, and then its remaining quantity is exact.
    have remaining : ∀ order ∈ submitted records, order.orderId = trade.restingOrderId →
        order.nodeId = "human" →
        SafeInteger.sub (source.restingQuantity trade.restingOrderId)
            (SafeInteger.toNumber trade.quantity) =
          source.restingQuantity trade.restingOrderId - trade.quantity := by
      intro order member isId isHuman
      rw [← isId] at covered ⊢
      obtain ⟨resting, inSide, sameId, isNode, _, isQuantity⟩ :=
        bookRun_resting_of_pos prior fresh positive member (by omega)
      have inBook : resting ∈ record.before.restingOrders := by
        rw [isBefore]
        exact (source.restingOrders_perm _).mem_iff.mpr (List.mem_append_left _ inSide)
      rw [← isQuantity]
      exact exactly trade inTrades resting inBook (sameId.trans isId) (isNode.trans isHuman)
    constructor
    · intro isEntry
      obtain ⟨before, isBefore, isTaken⟩ := Option.bind_eq_some_iff.mp isEntry
      obtain ⟨order, member, isId, isHuman, _, rfl⟩ := (follows _ _).mp isBefore
      have isExact := remaining order member isId isHuman
      rw [OpenOrder.taken, isExact] at isTaken
      split_ifs at isTaken with none
      obtain rfl := Option.some.inj isTaken
      exact ⟨order, member, isId, isHuman, by omega, by rw [left]⟩
    · rintro ⟨order, member, isId, isHuman, rests, rfl⟩
      have isExact := remaining order member isId isHuman
      rw [left] at rests ⊢
      have listed := (follows trade.restingOrderId _).mpr
        ⟨order, member, isId, isHuman, by omega, rfl⟩
      rw [listed, Option.bind_some, OpenOrder.taken, isExact, if_neg (by omega)]
  · have untraded : tradedAs Trade.restingOrderId record.trades orderId = 0 := by
      rw [tradedAs, List.filter_eq_nil_iff.mpr, List.map_nil, List.sum_nil]
      intro trade member
      have differ : trade.restingOrderId ≠ orderId := fun same =>
        named (same ▸ List.mem_map_of_mem member)
      simpa using differ
    rw [get_takeTrades_of_notMem (ids ▸ named), follows orderId entry]
    exact Listed.congr (by rw [afterTrades, untraded, sub_zero]) entry

/-- What the order of a submit does to the list. -/
theorem followOrder_submit {order : Order Price} (known : order.side = .bid ∨ order.side = .ask)
    {wire : WireBatch Price} (received : SubmitOnWire record order wire)
    (openOrders : InsertionMap String (OpenOrder Price)) :
    followOrder openOrders wire =
      if order.nodeId = "human" ∧
          (record.result.status = .queued ∨ record.result.status = .partialFill) then
        openOrders.set order.orderId ⟨order.orderId, BookSide.ofOrder order.side, order.price,
          SafeInteger.sub (SafeInteger.toNumber order.quantity)
            (SafeInteger.toNumber record.result.filledQuantity)⟩
      else openOrders := by
  have status : (wireStatus (some record.result.status) = some .queued ∨
      wireStatus (some record.result.status) = some .partialFill) ↔
        (record.result.status = .queued ∨ record.result.status = .partialFill) := by
    cases record.result.status <;> decide
  have side : wireSide (some order.side) = some (BookSide.ofOrder order.side) := by
    rcases known with isBid | isAsk
    · rw [isBid]
      rfl
    · rw [isAsk]
      rfl
  rw [followOrder]
  simp only [received.op, received.id, received.node, received.side, received.price, received.qty,
    received.status, received.filled, status, side, true_and]
  by_cases isHuman : order.nodeId = "human" <;> simp [isHuman]

/-- The batch of a submit keeps the list on the book. -/
theorem Follows.submit (prior : BookRun records source)
    (step : (bookSystem Price).step source record target)
    (fresh : FreshIds (records ++ [record])) (positive : PositiveQuantities (records ++ [record]))
    (sides : KnownSides (records ++ [record])) {order : Order Price}
    (isSubmit : record.operation = .submit order) (kept : OpenListKept record)
    {wire : WireBatch Price} (received : SubmitOnWire record order wire)
    (copies : List.Forall₂ (Copied order.nodeId) record.trades wire.trades)
    {openOrders : InsertionMap String (OpenOrder Price)}
    (follows : Follows records source.restingQuantity openOrders) :
    Follows (records ++ [record]) target.restingQuantity
      (followOrder (MarketSandbox.takeTrades openOrders wire.trades) wire) := by
  have reached := bookRun_reached prior fresh.earlier positive.earlier.noNegativeRemainder
    (.of_linear _)
  have effect := submit_effect reached.valid.wired step isSubmit
  have traded := follows.takeTrades prior step fresh.earlier positive.earlier isSubmit kept copies
  have exactly := (show _ ∧ _ by simpa only [OpenListKept, isSubmit] using kept).1
  have inSubmitted : order ∈ submitted (records ++ [record]) :=
    mem_submitted_append.mpr (.inr isSubmit)
  have nothing : source.restingQuantity order.orderId ≤ 0 := by
    refine not_lt.mp fun rests => fresh.last isSubmit (reached.known _ ?_)
    rw [← OrderBook.restingIds_eq]
    exact (OrderBook.restingQuantity_pos_iff reached.valid _).mp rests
  have quantity := effect.restingQuantity reached.valid
  have covered := effect.covered reached.valid order.orderId
  have given := tradedAs_nonneg (effect.trades_positive reached.valid) order.orderId
  have unlisted : (MarketSandbox.takeTrades openOrders wire.trades).get order.orderId = none := by
    refine traded.get_none ?_
    rw [afterTrades]
    omega
  rw [followOrder_submit (sides order inSubmitted) received]
  intro orderId entry
  by_cases own : orderId = order.orderId
  · subst own
    -- The order is listed when it is the user's and comes to rest.
    have listed : Listed (records ++ [record]) target.restingQuantity order.orderId entry ↔
        order.nodeId = "human" ∧ 0 < target.restingQuantity order.orderId ∧
          entry = ⟨order.orderId, BookSide.ofOrder order.side, order.price,
            target.restingQuantity order.orderId⟩ := by
      constructor
      · rintro ⟨other, member, isId, isListed⟩
        obtain rfl := fresh.unique member inSubmitted isId
        exact isListed
      · exact fun isListed => ⟨order, inSubmitted, rfl, isListed⟩
    rw [listed, quantity]
    split_ifs with both rests rests
    · obtain ⟨isHuman, isResting⟩ := both
      have isExact := exactly isHuman isResting
      have remains := OrderBook.remainder_of_nonneg source (BookSide.ofOrder order.side) order
        (positive order inSubmitted).le (effect.rests_iff.mpr isResting)
      rw [← effect.filled] at remains
      have isQuantity : source.restingQuantity order.orderId -
          tradedAs Trade.restingOrderId record.trades order.orderId +
            (order.quantity - record.result.filledQuantity) =
              order.quantity - record.result.filledQuantity := by omega
      rw [InsertionMap.get_set, Function.update_self, isExact, isQuantity, Option.some_inj]
      refine ⟨fun isEntry => ⟨isHuman, by omega, isEntry.symm⟩, fun isListed => isListed.2.2.symm⟩
    · exact absurd ⟨both.2, rfl⟩ rests
    · rw [unlisted]
      refine ⟨fun isEntry => ?_, fun isListed => absurd ⟨isListed.1, rests.1⟩ both⟩
      exact absurd isEntry.symm (Option.some_ne_none entry)
    · rw [unlisted]
      refine ⟨fun isEntry => absurd isEntry.symm (Option.some_ne_none entry), fun isListed => ?_⟩
      omega
  · have kept : Listed (records ++ [record]) target.restingQuantity orderId entry ↔
        Listed records (afterTrades source.restingQuantity record.trades) orderId entry := by
      rw [listed_append_iff fun other isOther same => own ?_]
      · refine Listed.congr ?_ entry
        rw [quantity, afterTrades, if_neg fun both => own both.2.symm, add_zero]
      · rw [isSubmit] at isOther
        rw [← same, Operation.submit.inj isOther]
    rw [kept, ← traded orderId entry]
    split_ifs
    · rw [InsertionMap.get_set, Function.update_of_ne own]
    · rfl

/-- The batch of a cancel keeps the list on the book. -/
theorem Follows.cancel (prior : BookRun records source)
    (step : (bookSystem Price).step source record target)
    (fresh : FreshIds records) (positive : PositiveQuantities records)
    {cancelledId nodeId : String} (isCancel : record.operation = .cancel cancelledId nodeId)
    (kept : OpenListKept record) {wire : WireBatch Price} (op : wire.op = .cancel)
    (id : wire.order.id = cancelledId) (node : wire.order.node = nodeId)
    (cancelOk : wire.order.cancelOk = record.result.cancelSuccessful)
    {openOrders : InsertionMap String (OpenOrder Price)}
    (follows : Follows records source.restingQuantity openOrders) :
    Follows (records ++ [record]) target.restingQuantity (followOrder openOrders wire) := by
  have valid := (bookRun_reached prior fresh positive.noNegativeRemainder (.of_linear _)).valid
  have onWire : followOrder openOrders wire =
      if nodeId = "human" ∧ record.result.cancelSuccessful then openOrders.delete cancelledId
      else openOrders := by
    rw [followOrder]
    simp only [op, id, node, cancelOk, reduceCtorEq, false_and, if_false, true_and]
    by_cases isHuman : nodeId = "human" <;> simp [isHuman]
  have unsubmitted : ∀ orderId order, record.operation = .submit order →
      order.orderId ≠ orderId := by
    intro orderId order isSubmit
    rw [isCancel] at isSubmit
    cases isSubmit
  rw [onWire]
  intro orderId entry
  rw [listed_append_iff (unsubmitted orderId)]
  cases step_effect valid.wired step with
  | submit order isSubmit _ => exact absurd rfl (unsubmitted _ order isSubmit)
  | cancel canceller side cancelled inNodes isSame after erased book result events =>
    obtain ⟨rfl, rfl⟩ := Operation.cancel.inj (isCancel.symm.trans isSame)
    have quantity : target.restingQuantity orderId =
        if cancelled.order.orderId = orderId then 0 else source.restingQuantity orderId := by
      rw [← OrderBook.restingQuantity_erased valid inNodes erased, book]
      rfl
    by_cases own : orderId = cancelled.order.orderId
    · subst own
      rw [if_pos rfl] at quantity
      refine ⟨fun isEntry => ?_, fun listed => absurd listed (not_listed quantity.le entry)⟩
      split_ifs at isEntry with byHuman
      · rw [InsertionMap.get_delete, Function.update_self] at isEntry
        cases isEntry
      · obtain ⟨order, member, isId, isHuman, rests, _⟩ := (follows _ _).mp isEntry
        rw [← isId] at rests
        obtain ⟨resting, inSide, sameId, isNode, _⟩ :=
          bookRun_resting_of_pos prior fresh positive member rests
        have inBook : resting ∈ record.before.restingOrders := by
          rw [step.1]
          exact (source.restingOrders_perm _).mem_iff.mpr (List.mem_append_left _ inSide)
        rw [OpenListKept, isCancel] at kept
        have byUser := kept resting inBook (sameId.trans isId) (isNode.trans isHuman)
        exact absurd ⟨byUser, by rw [result]⟩ byHuman
    · rw [Listed.congr (quantity.trans (if_neg fun same => own same.symm)) entry,
        ← follows orderId entry]
      split_ifs
      · rw [InsertionMap.get_delete, Function.update_of_ne own]
      · rfl
  | missing missingId canceller isSame notResting unchanged result events =>
    rw [if_neg (by simp [result, EngineResult.initial]), unchanged]
    exact follows orderId entry

/-! ### Every batch -/

section Exact

variable {Price : Type} [Field Price] [LinearOrder Price]

/-- The open orders after the batches of a run are the user's resting orders. -/
theorem follows_batches {deliveries : List (Delivery Price)} {book : OrderBook Price}
    (run : BookRun (deliveries.map Delivery.record) book)
    (fresh : FreshIds (deliveries.map Delivery.record))
    (positive : PositiveQuantities (deliveries.map Delivery.record))
    (sides : KnownSides (deliveries.map Delivery.record))
    (kept : ∀ delivery ∈ deliveries, OpenListKept delivery.record) (roster : List RosterEntry) :
    Follows (deliveries.map Delivery.record) book.restingQuantity
      (StatsState.after roster (Normalizer.initial.batches deliveries)).openOrders := by
  induction deliveries using List.reverseRecOn generalizing book with
  | nil =>
    obtain rfl : book = .empty := run.of_nil
    intro orderId entry
    refine ⟨nofun, fun listed => ?_⟩
    obtain ⟨order, member, _⟩ := listed
    cases member
  | append_singleton front delivery inductionHypothesis =>
    rw [List.map_append, List.map_singleton] at run fresh positive sides ⊢
    obtain ⟨source, prior, step⟩ := run.last
    have follows := inductionHypothesis prior fresh.earlier positive.earlier
      (fun order member => sides order (by
        rw [submitted_append]
        exact List.mem_append_left _ member))
      fun other member => kept other (List.mem_append_left _ member)
    have stepKept := kept delivery (List.mem_append_right _ List.mem_cons_self)
    rw [Normalizer.batches_append, Normalizer.batches, Normalizer.batches,
      StatsState.after_concat, batch_openOrders]
    cases operation : delivery.record.operation with
    | submit order =>
      have copies := normalizeTrades_copies order.nodeId delivery.record.trades
        (Normalizer.initial.feed front).resting
      rw [← Record.rawTrades, ← delivery.wire_trades_submit _ operation] at copies
      exact follows.submit prior step fresh positive sides operation stepKept
        (delivery.submit_on_wire _ operation) copies
    | cancel cancelledId nodeId =>
      obtain ⟨op, id, node, cancelOk⟩ :=
        delivery.cancel_on_wire (Normalizer.initial.feed front) operation
      have untraded : delivery.record.trades = [] := by
        refine List.eq_nil_iff_forall_not_mem.mpr fun trade member => ?_
        have valid := (bookRun_reached prior fresh.earlier
          positive.earlier.noNegativeRemainder (.of_linear _)).valid
        obtain ⟨order, isSubmit, _⟩ := submit_of_mem_trades valid step member
        rw [operation] at isSubmit
        cases isSubmit
      have noTrades : ((Normalizer.initial.feed front).wire delivery).trades = [] := by
        obtain ⟨node, trades⟩ := delivery.wire_trades (Normalizer.initial.feed front)
        rw [trades, Record.rawTrades, untraded]
        rfl
      rw [noTrades]
      exact follows.cancel prior step fresh.earlier positive.earlier operation stepKept op id node
        cancelOk

/-- Open orders that follow a book are listed exactly. -/
theorem openListRight_of_follows {records : List (Record Price)} {book : OrderBook Price}
    (run : BookRun records book) (fresh : FreshIds records) (positive : PositiveQuantities records)
    {openOrders : InsertionMap String (OpenOrder Price)}
    (follows : Follows records book.restingQuantity openOrders) :
    OpenListRight book (openOrders.entries.map Prod.snd) := by
  have listed : ∀ pair ∈ openOrders.entries,
      Listed records book.restingQuantity pair.1 pair.2 := fun pair member =>
    (follows pair.1 pair.2).mp ((openOrders.indexes_get.lookup pair.1 pair.2).mpr member)
  constructor
  · have ids : (openOrders.entries.map Prod.snd).map OpenOrder.id =
        openOrders.entries.map Prod.fst := by
      rw [List.map_map]
      refine List.map_congr_left fun pair member => ?_
      exact ((listed_iff run fresh positive pair.1 pair.2).mp (listed pair member)).1.symm
    rw [ids]
    exact openOrders.nodup
  · intro entry
    constructor
    · intro member
      obtain ⟨pair, inEntries, rfl⟩ := List.mem_map.mp member
      exact ((listed_iff run fresh positive pair.1 pair.2).mp (listed pair inEntries)).2
    · intro resting
      have isListed := (listed_iff run fresh positive entry.id entry).mpr ⟨rfl, resting⟩
      exact List.mem_map_of_mem ((openOrders.indexes_get.lookup entry.id entry).mp
        ((follows entry.id entry).mpr isListed))

namespace Sample

/-- The user's ask rests. -/
def userAsk : Record ℚ := submitRecord .empty 1 ⟨.ask, .limit, 101, 5, "ORD-0", "human"⟩

/-- A bid takes a part of it. -/
def takerBid : Record ℚ := submitRecord userAsk.after 2 ⟨.bid, .limit, 102, 2, "ORD-1", "mom-1"⟩

/-- Another node cancels it. -/
def foreignCancel : Record ℚ := cancelRecord userAsk.after 2 "ORD-0" "mm-1" (by decide)

theorem userRun : BookRun [userAsk] userAsk.after :=
  (Transition.Run.start rfl).next (submitRecord_step _ _ _)

/-- The frames of a run that the page has received. -/
def framesOf (records : List (Record ℚ)) : List (Frame ℚ) :=
  (Normalizer.initial.batches (records.mapIdx delivery)).map .batch

end Sample

/-- In every run whose steps meet the condition, the page lists exactly the user's resting orders
after every batch. -/
theorem open_list_right {deliveries : List (Delivery Price)} {book : OrderBook Price}
    (run : BookRun (deliveries.map Delivery.record) book)
    (fresh : FreshIds (deliveries.map Delivery.record))
    (positive : PositiveQuantities (deliveries.map Delivery.record))
    (sides : KnownSides (deliveries.map Delivery.record))
    (kept : ∀ delivery ∈ deliveries, OpenListKept delivery.record) {frames : List (Frame Price)}
    (received : frames.filterMap Frame.batch? = Normalizer.initial.batches deliveries)
    (roster : List RosterEntry) :
    OpenListRight book (computeStats frames (frames.length - 1) roster).openOrders := by
  have all : batchesUpTo frames (frames.length - 1) = Normalizer.initial.batches deliveries := by
    rw [batchesUpTo, sub_add_cancel, Int.toNat_natCast, List.take_length, received]
  rw [computeStats_eq, all]
  exact openListRight_of_follows run fresh positive
    (follows_batches run fresh positive sides kept roster)

theorem open_list_right_sample : OpenListRight Sample.takerBid.after
    (computeStats (Sample.framesOf [Sample.userAsk, Sample.takerBid])
      ((Sample.framesOf [Sample.userAsk, Sample.takerBid]).length - 1) []).openOrders := by
  have run : BookRun ([Sample.delivery 0 Sample.userAsk, Sample.delivery 1 Sample.takerBid].map
      Delivery.record) Sample.takerBid.after :=
    Sample.userRun.next (Sample.submitRecord_step _ _ _)
  refine open_list_right run (by decide) (by decide) (by decide) ?_ rfl []
  intro delivery member
  rcases List.mem_pair.mp member with rfl | rfl
  · exact ⟨by decide, by decide⟩
  · exact ⟨by decide, by decide⟩

/-- The exchange lets another node cancel the user's order, and the page goes on listing it. -/
theorem foreign_cancel_keeps_listing :
    BookRun [Sample.userAsk, Sample.foreignCancel] Sample.foreignCancel.after ∧
      FreshIds [Sample.userAsk, Sample.foreignCancel] ∧
      PositiveQuantities [Sample.userAsk, Sample.foreignCancel] ∧
      KnownSides [Sample.userAsk, Sample.foreignCancel] ∧
      Sample.foreignCancel.after.restingOrders = [] ∧
      ¬ OpenListRight Sample.foreignCancel.after
        (computeStats (Sample.framesOf [Sample.userAsk, Sample.foreignCancel])
          ((Sample.framesOf [Sample.userAsk, Sample.foreignCancel]).length - 1) []).openOrders := by
  have empty : Sample.foreignCancel.after.restingOrders = [] := by decide
  refine ⟨Sample.userRun.next (Sample.cancelRecord_step _ _ _ _ _), by decide, by decide,
    by decide, empty, ?_⟩
  rintro ⟨_, listed⟩
  obtain ⟨side, resting, member, _⟩ := (listed ⟨"ORD-0", .ask, 101, 5⟩).mp (by decide)
  have inBook : resting ∈ Sample.foreignCancel.after.restingOrders :=
    (Sample.foreignCancel.after.restingOrders_perm side).mem_iff.mpr
      (List.mem_append_left _ member)
  rw [empty] at inBook
  cases inBook

end Exact

end MarketSandbox
