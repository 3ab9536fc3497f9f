/-
This file proves that every order's quantity is conserved over every run. What
is submitted under an id is what was traded under it, as aggressor and as
resting order, what still rests, what rested when it was cancelled, and what a
rejected market order left unfilled. Each step balances for every id, and a run
adds its steps up.
-/

import MarketSandbox.Exchange.Reports
import MarketSandbox.Exchange.Run
import Mathlib.Algebra.Order.BigOperators.Group.List

namespace MarketSandbox

open GreedyFill

variable {Price : Type}

/-! ### The ledger's entries -/

/-- The quantity traded by trades that name an id, as aggressor or as resting order. -/
def tradedAs (party : Trade Price → String) (trades : List (Trade Price)) (orderId : String) :
    Int :=
  ((trades.filter fun trade => party trade = orderId).map Trade.quantity).sum

theorem tradedAs_append (party : Trade Price → String) (front back : List (Trade Price))
    (orderId : String) :
    tradedAs party (front ++ back) orderId =
      tradedAs party front orderId + tradedAs party back orderId := by
  simp only [tradedAs, List.filter_append, List.map_append, List.sum_append]

theorem tradedAs_cons (party : Trade Price → String) (trade : Trade Price)
    (rest : List (Trade Price)) (orderId : String) :
    tradedAs party (trade :: rest) orderId =
      (if party trade = orderId then trade.quantity else 0) + tradedAs party rest orderId := by
  by_cases named : party trade = orderId <;> simp [tradedAs, named]

theorem tradedAs_nonneg {trades : List (Trade Price)}
    (positive : ∀ trade ∈ trades, 0 < trade.quantity) (orderId : String) :
    0 ≤ tradedAs Trade.restingOrderId trades orderId := by
  refine List.sum_nonneg fun quantity member => ?_
  obtain ⟨trade, inFiltered, rfl⟩ := List.mem_map.mp member
  exact (positive trade (List.mem_of_mem_filter inFiltered)).le

/-- A trade takes no more than the trades that name its resting order. -/
theorem le_tradedAs {trades : List (Trade Price)}
    (positive : ∀ trade ∈ trades, 0 < trade.quantity) {trade : Trade Price}
    (member : trade ∈ trades) :
    trade.quantity ≤ tradedAs Trade.restingOrderId trades trade.restingOrderId := by
  obtain ⟨front, back, rfl⟩ := List.append_of_mem member
  have frontNonneg := tradedAs_nonneg (fun other inFront =>
    positive other (List.mem_append_left _ inFront)) trade.restingOrderId
  have backNonneg := tradedAs_nonneg (fun other inBack =>
    positive other (List.mem_append_right _ (List.mem_cons_of_mem _ inBack))) trade.restingOrderId
  rw [tradedAs_append, tradedAs_cons, if_pos rfl]
  omega

theorem tradedAs_pos {trades : List (Trade Price)}
    (positive : ∀ trade ∈ trades, 0 < trade.quantity) {trade : Trade Price}
    (member : trade ∈ trades) : 0 < tradedAs Trade.restingOrderId trades trade.restingOrderId :=
  (positive trade member).trans_le (le_tradedAs positive member)

theorem tradedAs_aggressor (order : Order Price) (timestamp counter : Nat)
    (fills : List (Order Price × Int)) (orderId : String) :
    tradedAs Trade.aggressorOrderId (fillTrades order timestamp counter fills) orderId =
      if order.orderId = orderId then (fills.map Prod.snd).sum else 0 := by
  induction fills generalizing counter with
  | nil => simp [fillTrades, tradedAs]
  | cons fill rest inductionHypothesis =>
    have restTrades := inductionHypothesis (counter + 1)
    by_cases own : order.orderId = orderId
    · simp only [tradedAs, own, if_true] at restTrades ⊢
      simp [fillTrades, own, restTrades]
    · simp only [tradedAs, own, if_false] at restTrades ⊢
      simp [fillTrades, own, restTrades]

theorem tradedAs_resting (order : Order Price) (timestamp counter : Nat)
    (fills : List (Order Price × Int)) (orderId : String) :
    tradedAs Trade.restingOrderId (fillTrades order timestamp counter fills) orderId =
      ((fills.filter fun fill => fill.1.orderId = orderId).map Prod.snd).sum := by
  induction fills generalizing counter with
  | nil => rfl
  | cons fill rest inductionHypothesis =>
    have restTrades := inductionHypothesis (counter + 1)
    by_cases named : fill.1.orderId = orderId
    · simp only [tradedAs] at restTrades ⊢
      simp [fillTrades, named, restTrades]
    · simp only [tradedAs] at restTrades ⊢
      simp [fillTrades, named, restTrades]

section Entries

variable [LT Price]

/-- The quantity resting under an id. -/
def OrderBook.restingQuantity (book : OrderBook Price) (orderId : String) : Int :=
  ((book.restingOrders.filter fun order => order.orderId = orderId).map Order.quantity).sum

/-- The quantity that an operation submits under an id. -/
def Record.submittedQuantity (record : Record Price) (orderId : String) : Int :=
  match record.operation with
  | .submit order => if order.orderId = orderId then order.quantity else 0
  | .cancel _ _ => 0

/-- The quantity that still rested under an id when it was cancelled. -/
def Record.cancelledQuantity (record : Record Price) (orderId : String) : Int :=
  match record.operation with
  | .submit _ => 0
  | .cancel cancelledId _ =>
    if cancelledId = orderId ∧ record.result.cancelSuccessful then
      record.before.restingQuantity orderId
    else 0

/-- The unfilled part of an order that was rejected. -/
def Record.rejectedQuantity (record : Record Price) (orderId : String) : Int :=
  match record.operation with
  | .submit order =>
    if order.orderId = orderId ∧ record.result.status = .rejected then
      order.quantity - record.result.filledQuantity
    else 0
  | .cancel _ _ => 0

/-- All that a step takes away from an id's quantity. -/
def Record.spentQuantity (record : Record Price) (orderId : String) : Int :=
  tradedAs Trade.aggressorOrderId record.trades orderId +
    tradedAs Trade.restingOrderId record.trades orderId +
    record.cancelledQuantity orderId + record.rejectedQuantity orderId

theorem tradedAs_flatMap (party : Trade Price → String) (records : List (Record Price))
    (orderId : String) :
    tradedAs party (records.flatMap Record.trades) orderId =
      (records.map fun record => tradedAs party record.trades orderId).sum := by
  induction records with
  | nil => rfl
  | cons record rest inductionHypothesis =>
    rw [List.flatMap_cons, tradedAs_append, inductionHypothesis, List.map_cons, List.sum_cons]

/-! ### What operations do to the quantity resting under an id -/

namespace OrderBook

theorem restingQuantity_perm {book : OrderBook Price} {orders : List (Order Price)}
    (same : book.restingOrders.Perm orders) (orderId : String) :
    book.restingQuantity orderId =
      ((orders.filter fun order => order.orderId = orderId).map Order.quantity).sum :=
  ((same.filter _).map _).sum_eq

theorem restingQuantity_of_notMem {book : OrderBook Price} {orderId : String}
    (absent : orderId ∉ book.restingIds) : book.restingQuantity orderId = 0 := by
  rw [restingQuantity, List.filter_eq_nil_iff.mpr, List.map_nil, List.sum_nil]
  intro order member
  have different : order.orderId ≠ orderId := fun same =>
    absent (same ▸ List.mem_map_of_mem member)
  simpa using different

theorem restingQuantity_cons {book after : OrderBook Price} {order : Order Price}
    (same : book.restingOrders.Perm (order :: after.restingOrders)) (orderId : String) :
    book.restingQuantity orderId =
      (if order.orderId = orderId then order.quantity else 0) + after.restingQuantity orderId := by
  rw [restingQuantity_perm same, restingQuantity]
  by_cases own : order.orderId = orderId <;> simp [own]

end OrderBook

end Entries

section Effects

variable [PriceOperations Price]

namespace OrderBook

/-- Matching takes from the resting quantities what the fills give. -/
theorem restingQuantity_matched {book : OrderBook Price} (valid : book.Valid) (side : BookSide)
    (order : Order Price) (timestamp : Nat) (orderId : String) :
    book.restingQuantity orderId =
      (((nodeFills order.quantity (openNodes side order (book.levels side.opposite).entries)).filter
        fun fill => fill.1.orderId = orderId).map Prod.snd).sum +
          (book.matched side order timestamp).restingQuantity orderId := by
  have conserved := quantity_conserved Order.quantity Order.reduceQuantity
    (fun resting : Order Price => resting.orderId = orderId) (fun _ _ => rfl) (fun _ _ => rfl)
    order.quantity
    ((openNodes side order (book.levels side.opposite).entries).map RestingNode.order)
  rw [restingQuantity_perm (book.restingOrders_perm side),
    restingQuantity_perm ((book.matched side order timestamp).restingOrders_perm side),
    matched_resting_self, matched_resting_opposite valid.wired, resting_split book side order,
    nodeFills_eq]
  simp only [List.map_append, List.filter_append, List.sum_append]
  omega

end OrderBook

/-! ### A submit's record -/

/-- What the record of a submit to a valid book says. -/
structure SubmitEffect (source : OrderBook Price) (record : Record Price) (target : OrderBook Price)
    (order : Order Price) : Prop where
  trades : record.trades = fillTrades order record.timestamp source.tradeCounter
    (nodeFills order.quantity (OrderBook.openNodes (BookSide.ofOrder order.side) order
      (source.levels (BookSide.ofOrder order.side).opposite).entries))
  filled : record.result.filledQuantity = source.filledBy (BookSide.ofOrder order.side) order
  status : record.result.status =
    if source.filledBy (BookSide.ofOrder order.side) order = order.quantity then .filled
    else if order.orderType = .market then .rejected
    else if source.filledBy (BookSide.ofOrder order.side) order = 0 then .queued else .partialFill
  book : target =
    if OrderBook.Rests order (source.filledBy (BookSide.ofOrder order.side) order) then
      (source.matched (BookSide.ofOrder order.side) order record.timestamp).rest
        (BookSide.ofOrder order.side)
        (order.reduceQuantity (source.filledBy (BookSide.ofOrder order.side) order))
    else source.matched (BookSide.ofOrder order.side) order record.timestamp

theorem submit_effect {source target : OrderBook Price} {record : Record Price}
    (wired : source.Wired) (step : (bookSystem Price).step source record target)
    {order : Order Price} (isSubmit : record.operation = .submit order) :
    SubmitEffect source record target order := by
  obtain ⟨_, _, performed⟩ := step
  rw [isSubmit] at performed
  have outcome : source.submitTo (BookSide.ofOrder order.side) order record.timestamp =
      ⟨target, record.result, record.events⟩ := by
    rw [← OrderBook.submit_eq]
    exact Option.some.inj performed
  constructor
  · rw [← OrderBook.submitTo_trades _ _ _ wired, outcome, Record.trades]
  · rw [← OrderBook.submitTo_filledQuantity _ _ record.timestamp wired, outcome]
  · rw [← OrderBook.submitTo_status _ _ record.timestamp wired, outcome]
  · rw [← OrderBook.submitTo_book wired, outcome]

namespace SubmitEffect

variable {source target : OrderBook Price} {record : Record Price} {order : Order Price}

theorem aggressor (effect : SubmitEffect source record target order) {trade : Trade Price}
    (member : trade ∈ record.trades) : trade.aggressorOrderId = order.orderId := by
  rw [effect.trades] at member
  exact fillTrades_aggressor _ _ _ _ trade member

theorem aggressorSide (effect : SubmitEffect source record target order) {trade : Trade Price}
    (member : trade ∈ record.trades) : trade.aggressorSide = order.side := by
  rw [effect.trades] at member
  exact (fillTrades_named _ _ _ _ trade member).1

/-- A trade names an order resting in the open levels, and trades at its price. -/
theorem hits (effect : SubmitEffect source record target order) {trade : Trade Price}
    (member : trade ∈ record.trades) :
    ∃ resting ∈ (OrderBook.openNodes (BookSide.ofOrder order.side) order
        (source.levels (BookSide.ofOrder order.side).opposite).entries).map RestingNode.order,
      trade.restingOrderId = resting.orderId ∧ trade.price = resting.price := by
  rw [effect.trades, nodeFills_eq] at member
  obtain ⟨_, fill, inFills, named⟩ := fillTrades_named _ _ _ _ trade member
  exact ⟨fill.1, mem_of_mem_fills inFills, named⟩

/-- The status says whether the order rests. -/
theorem rests_iff (effect : SubmitEffect source record target order) :
    OrderBook.Rests order (source.filledBy (BookSide.ofOrder order.side) order) ↔
      record.result.status = .queued ∨ record.result.status = .partialFill := by
  rw [effect.status, OrderBook.Rests]
  split_ifs with full market nothing
  · simp [full]
  · simp [market]
  · simp [full, market]
  · simp [full, market]

/-- Trades take from what rests, and the remainder adds to it. -/
theorem restingQuantity (effect : SubmitEffect source record target order) (valid : source.Valid)
    (orderId : String) :
    target.restingQuantity orderId =
      source.restingQuantity orderId - tradedAs Trade.restingOrderId record.trades orderId +
        if (record.result.status = .queued ∨ record.result.status = .partialFill) ∧
            order.orderId = orderId then
          order.quantity - record.result.filledQuantity
        else 0 := by
  have given := OrderBook.restingQuantity_matched valid (BookSide.ofOrder order.side) order
    record.timestamp orderId
  simp only [← effect.rests_iff]
  rw [effect.trades, tradedAs_resting, effect.book, effect.filled]
  by_cases rests : OrderBook.Rests order (source.filledBy (BookSide.ofOrder order.side) order)
  · rw [if_pos rests, OrderBook.restingQuantity_cons (OrderBook.rest_restingOrders _ _ _)]
    split_ifs with own both both
    · rw [Order.reduceQuantity_quantity]
      omega
    · exact absurd ⟨rests, own⟩ both
    · exact absurd both.2 own
    · omega
  · simp only [rests, if_false, false_and]
    omega

end SubmitEffect

/-! ### A step balances -/

theorem Record.trades_of_cancel {record : Record Price} {top : TopOfBook Price}
    (events : record.events = [.topOfBook top]) : record.trades = [] := by
  rw [Record.trades, events]
  rfl

theorem Record.trades_of_missing {record : Record Price} (events : record.events = []) :
    record.trades = [] := by
  rw [Record.trades, events]
  rfl

/-- Only submits trade. -/
theorem submit_of_mem_trades {source target : OrderBook Price} {record : Record Price}
    (valid : source.Valid) (step : (bookSystem Price).step source record target)
    {trade : Trade Price} (member : trade ∈ record.trades) :
    ∃ order, record.operation = .submit order ∧ SubmitEffect source record target order := by
  cases step_effect valid.wired step with
  | submit order isSubmit _ => exact ⟨order, isSubmit, submit_effect valid.wired step isSubmit⟩
  | cancel _ _ _ _ _ _ _ _ _ events =>
    rw [Record.trades_of_cancel events] at member
    cases member
  | missing _ _ _ _ _ _ events =>
    rw [Record.trades_of_missing events] at member
    cases member

/-! ### The ids that rest after a step -/

/-- A step whose submitted id does not rest keeps the book wired. -/
theorem OrderBook.Wired.step {source target : OrderBook Price} {record : Record Price}
    (wired : source.Wired) (step : (bookSystem Price).step source record target)
    (fresh : ∀ order, record.operation = .submit order → order.orderId ∉ source.restingIds)
    (inPlace : record.RestsInPlace) : target.Wired := by
  cases step_effect wired step with
  | submit order isSubmit outcome =>
    have newId := fresh order isSubmit
    rw [OrderBook.restingIds_eq] at newId
    obtain rfl := step.1
    have submitted := wired.submitTo (BookSide.ofOrder order.side) order record.timestamp newId
      (inPlace order isSubmit)
    rwa [outcome] at submitted
  | cancel _ side node inNodes _ after erased book _ _ =>
    rw [book]
    exact wired.erased inNodes erased
  | missing _ _ _ _ unchanged _ _ => rwa [unchanged]

/-- What rests after a step rested before it, or was submitted by it and reported to rest. -/
theorem restingIds_after {source target : OrderBook Price} {record : Record Price}
    (wired : source.Wired) (step : (bookSystem Price).step source record target) {orderId : String}
    (rests : orderId ∈ target.restingIds) :
    orderId ∈ source.restingIds ∨ ∃ order, record.operation = .submit order ∧
      order.orderId = orderId ∧
      (record.result.status = .queued ∨ record.result.status = .partialFill) := by
  cases step_effect wired step with
  | submit order isSubmit _ =>
    have effect := submit_effect wired step isSubmit
    have matched := OrderBook.matched_restingIds wired (BookSide.ofOrder order.side) order
      record.timestamp orderId
    rw [effect.book] at rests
    split_ifs at rests with goesOn
    · have ids := (OrderBook.rest_restingOrders (source.matched (BookSide.ofOrder order.side) order
        record.timestamp) (BookSide.ofOrder order.side)
          (order.reduceQuantity (source.filledBy (BookSide.ofOrder order.side) order))).map
            Order.orderId
      rcases List.mem_cons.mp (ids.mem_iff.mp rests) with own | old
      · exact .inr ⟨order, isSubmit, own.symm, effect.rests_iff.mp goesOn⟩
      · exact .inl (matched old)
    · exact .inl (matched rests)
  | cancel _ side node inNodes _ after erased book _ _ =>
    refine .inl ?_
    have ids := (OrderBook.erased_restingOrders wired inNodes erased).map Order.orderId
    rw [book] at rests
    exact ids.mem_iff.mpr (List.mem_cons_of_mem _ rests)
  | missing _ _ _ _ unchanged _ _ => exact .inl (unchanged ▸ rests)

/-- A cancelled id does not rest. -/
theorem restingIds_after_cancel {source target : OrderBook Price} {record : Record Price}
    (wired : source.Wired) (step : (bookSystem Price).step source record target)
    {orderId nodeId : String} (isCancel : record.operation = .cancel orderId nodeId) :
    orderId ∉ target.restingIds := by
  cases step_effect wired step with
  | submit order isSubmit _ =>
    rw [isCancel] at isSubmit
    cases isSubmit
  | cancel _ side node inNodes isSame after erased book _ _ =>
    obtain ⟨rfl, _⟩ := Operation.cancel.inj (isCancel.symm.trans isSame)
    have located := (OrderBook.located_erased wired inNodes erased).map Prod.fst
    have distinct := located.nodup_iff.mp wired.indexes.distinct
    rw [List.map_cons, List.nodup_cons] at distinct
    rw [book]
    intro rests
    rw [OrderBook.restingIds_eq] at rests
    exact distinct.1 rests
  | missing _ _ isSame notResting unchanged _ _ =>
    obtain ⟨rfl, _⟩ := Operation.cancel.inj (isCancel.symm.trans isSame)
    rwa [unchanged, OrderBook.restingIds_eq]

/-- What a successful cancel does to the quantities. -/
theorem OrderBook.restingQuantity_erased {book after : OrderBook Price} (valid : book.Valid)
    {side : BookSide} {node : RestingNode Price} (member : node ∈ book.nodes side)
    (erased : OrderBook.Erased book side node after) (orderId : String) :
    after.restingQuantity orderId =
      if node.order.orderId = orderId then 0 else book.restingQuantity orderId := by
  have same := erased_restingOrders valid.wired member erased
  by_cases own : node.order.orderId = orderId
  · rw [if_pos own, ← own]
    refine restingQuantity_of_notMem fun inAfter => ?_
    have distinct := (same.map Order.orderId).nodup_iff.mp valid.nodup_restingIds
    exact (List.nodup_cons.mp distinct).1 inAfter
  · rw [if_neg own, restingQuantity_cons same, if_neg own, zero_add]

theorem Record.balanced {source target : OrderBook Price} {record : Record Price}
    (valid : source.Valid) (step : (bookSystem Price).step source record target)
    (orderId : String) :
    source.restingQuantity orderId + record.submittedQuantity orderId =
      record.spentQuantity orderId + target.restingQuantity orderId := by
  obtain ⟨rfl, rfl, _⟩ := id step
  cases step_effect valid.wired step with
  | submit order isSubmit outcome =>
    have effect := submit_effect valid.wired step isSubmit
    have total : ((nodeFills order.quantity (OrderBook.openNodes (BookSide.ofOrder order.side) order
        (record.before.levels (BookSide.ofOrder order.side).opposite).entries)).map
          Prod.snd).sum = record.result.filledQuantity := by
      rw [nodeFills, List.map_map, effect.filled]
      rfl
    have aggressor : tradedAs Trade.aggressorOrderId record.trades orderId =
        if order.orderId = orderId then record.result.filledQuantity else 0 := by
      rw [effect.trades, tradedAs_aggressor, total]
    have filled : record.result.status = .filled →
        record.result.filledQuantity = order.quantity := by
      rw [effect.status, effect.filled]
      split_ifs with full market nothing <;> simp [full]
    have statuses : record.result.status = .filled ∨ record.result.status = .rejected ∨
        (record.result.status = .queued ∨ record.result.status = .partialFill) := by
      rw [effect.status]
      split_ifs <;> simp
    rw [effect.restingQuantity valid, spentQuantity, aggressor]
    simp only [submittedQuantity, cancelledQuantity, rejectedQuantity, isSubmit]
    by_cases own : order.orderId = orderId
    · rcases statuses with isFilled | isRejected | rests
      · have full := filled isFilled
        simp only [own, isFilled, reduceCtorEq, or_self, false_and, and_false, if_true, if_false]
        omega
      · simp only [own, isRejected, reduceCtorEq, or_self, false_and, and_self, if_true, if_false]
        omega
      · have notRejected : record.result.status ≠ .rejected := by
          rcases rests with queued | partly
          · rw [queued]
            decide
          · rw [partly]
            decide
        simp only [own, rests, notRejected, and_self, and_false, if_true, if_false]
        omega
    · simp only [own, and_false, false_and, if_false]
      omega
  | cancel nodeId side node resting isCancel after erased book result events =>
    have erasedQuantity := OrderBook.restingQuantity_erased valid resting erased orderId
    have target : record.after.restingQuantity orderId = after.restingQuantity orderId := by
      rw [book]
      rfl
    rw [spentQuantity, Record.trades_of_cancel events, target, erasedQuantity]
    simp only [submittedQuantity, cancelledQuantity, rejectedQuantity, isCancel, result, and_true]
    by_cases own : node.order.orderId = orderId <;> simp [tradedAs, own]
  | missing cancelledId nodeId isCancel notResting unchanged result events =>
    rw [spentQuantity, Record.trades_of_missing events, unchanged]
    simp [submittedQuantity, cancelledQuantity, rejectedQuantity, isCancel, result, tradedAs,
      EngineResult.initial]

/-! ### A run balances -/

theorem Record.submittedQuantity_sum {records : List (Record Price)} (fresh : FreshIds records)
    {order : Order Price} (member : order ∈ submitted records) :
    (records.map fun record => record.submittedQuantity order.orderId).sum = order.quantity := by
  have bySubmits : (records.map fun record => record.submittedQuantity order.orderId).sum =
      (((submitted records).filter fun other => other.orderId = order.orderId).map
        Order.quantity).sum := by
    clear member fresh
    induction records with
    | nil => rfl
    | cons record rest inductionHypothesis =>
      rw [List.map_cons, List.sum_cons, inductionHypothesis]
      cases operation : record.operation with
      | submit other =>
        by_cases own : other.orderId = order.orderId <;>
          simp [submittedQuantity, submitted, operation, Operation.submitted?, own]
      | cancel orderId nodeId =>
        simp [submittedQuantity, submitted, operation, Operation.submitted?]
  have one := (List.perm_cons_filter_tag fresh member).filter
    fun other => other.orderId = order.orderId
  have others : ((submitted records).filter fun other => other.orderId ≠ order.orderId).filter
      (fun other => other.orderId = order.orderId) = [] := by
    rw [List.filter_filter]
    simp
  rw [List.filter_cons_of_pos (by simp), others] at one
  rw [bySubmits, List.perm_singleton.mp one]
  simp

theorem bookRun_balanced {records : List (Record Price)} {book : OrderBook Price}
    (run : BookRun records book) (fresh : FreshIds records) (sound : NoNegativeRemainder records)
    (inPlace : InPlace records) (orderId : String) :
    (records.map fun record => record.submittedQuantity orderId).sum =
      (records.map fun record => record.spentQuantity orderId).sum +
        book.restingQuantity orderId := by
  refine bookRun_invariant (fun records book => (records.map fun record =>
    record.submittedQuantity orderId).sum = (records.map fun record =>
      record.spentQuantity orderId).sum + book.restingQuantity orderId) rfl ?_ run fresh sound
        inPlace
  intro records source record target reached _ _ _ step balanced
  have stepBalanced := Record.balanced reached.valid step orderId
  simp only [List.map_append, List.map_cons, List.map_nil, List.sum_append, List.sum_cons,
    List.sum_nil]
  omega

/-- Where an order with a new id rests after its submit. -/
theorem SubmitEffect.mem_resting {source target : OrderBook Price} {record : Record Price}
    {order : Order Price} (effect : SubmitEffect source record target order)
    (valid : source.Valid) (fresh : order.orderId ∉ source.restingIds) (side : BookSide)
    (resting : Order Price) :
    (resting ∈ target.resting side ∧ resting.orderId = order.orderId) ↔
      OrderBook.Rests order (source.filledBy (BookSide.ofOrder order.side) order) ∧
        side = BookSide.ofOrder order.side ∧
        resting = order.reduceQuantity (source.filledBy (BookSide.ofOrder order.side) order) := by
  have notMatched : ∀ other, ∀ node ∈
      (source.matched (BookSide.ofOrder order.side) order record.timestamp).nodes other,
      node.order.orderId ≠ order.orderId := fun other node member same =>
    fresh (same ▸ OrderBook.matched_restingIds valid.wired _ order record.timestamp _
      (OrderBook.orderId_mem_restingIds member))
  rw [effect.book]
  constructor
  · rintro ⟨member, own⟩
    obtain ⟨node, inNodes, rfl⟩ := List.mem_map.mp member
    split_ifs at inNodes with rests
    · refine ⟨rests, ?_⟩
      clear member
      revert side
      refine (BookSide.ofOrder order.side).forall_of_opposite ?_ ?_
      · intro inNodes
        rcases List.mem_cons.mp ((OrderBook.rest_nodes_self _ _ _).mem_iff.mp inNodes) with
          rfl | old
        · exact ⟨rfl, rfl⟩
        · exact absurd own (notMatched _ node old)
      · intro inNodes
        rw [OrderBook.rest_nodes_opposite] at inNodes
        exact absurd own (notMatched _ node inNodes)
    · exact absurd own (notMatched _ node inNodes)
  · rintro ⟨rests, rfl, rfl⟩
    rw [if_pos rests]
    exact ⟨List.mem_map_of_mem
      ((OrderBook.rest_nodes_self _ _ _).mem_iff.mpr List.mem_cons_self), rfl⟩

end Effects

/-- Every order's quantity is conserved, and each submit reports where it went. -/
theorem ledger_balances [PriceArithmetic Price] {records : List (Record Price)}
    {book : OrderBook Price} (run : BookRun records book) (fresh : FreshIds records)
    (positive : PositiveQuantities records) :
    (∀ order ∈ submitted records, order.quantity =
      tradedAs Trade.aggressorOrderId (records.flatMap Record.trades) order.orderId +
        tradedAs Trade.restingOrderId (records.flatMap Record.trades) order.orderId +
        book.restingQuantity order.orderId +
        (records.map fun record => record.cancelledQuantity order.orderId).sum +
        (records.map fun record => record.rejectedQuantity order.orderId).sum) ∧
    ∀ record ∈ records, ∀ order, record.operation = .submit order →
      record.result.filledQuantity = (record.trades.map Trade.quantity).sum ∧
      (∀ trade ∈ record.trades, trade.aggressorOrderId = order.orderId) ∧
      (∀ side resting,
        (resting ∈ record.after.resting side ∧ resting.orderId = order.orderId) ↔
          (record.result.status = .queued ∨ record.result.status = .partialFill) ∧
            side = BookSide.ofOrder order.side ∧
            resting = order.reduceQuantity record.result.filledQuantity) ∧
      (record.result.status = .queued ∨ record.result.status = .partialFill →
        (record.result.status = .queued ↔ record.result.filledQuantity = 0)) := by
  have sound := positive.noNegativeRemainder
  constructor
  · intro order member
    have balanced := bookRun_balanced run fresh sound (.of_linear _) order.orderId
    have spent : (records.map fun record => record.spentQuantity order.orderId).sum =
        (records.map fun record => tradedAs Trade.aggressorOrderId record.trades
          order.orderId).sum +
        (records.map fun record => tradedAs Trade.restingOrderId record.trades
          order.orderId).sum +
        (records.map fun record => record.cancelledQuantity order.orderId).sum +
        (records.map fun record => record.rejectedQuantity order.orderId).sum := by
      simp only [Record.spentQuantity, List.sum_map_add]
    rw [Record.submittedQuantity_sum fresh member, spent] at balanced
    rw [tradedAs_flatMap, tradedAs_flatMap]
    omega
  · intro record member order isSubmit
    obtain ⟨front, reached, newIds, step⟩ :=
      bookRun_step_of_mem run fresh sound (.of_linear _) member
    have valid := reached.valid
    have newId : order.orderId ∉ record.before.restingIds := by
      rw [OrderBook.restingIds_eq]
      exact fun resting => newIds.last isSubmit (reached.known _ resting)
    have effect := submit_effect valid.wired step isSubmit
    refine ⟨?_, ?_, ?_, ?_⟩
    · rw [effect.trades, fillTrades_quantity, effect.filled, nodeFills, List.map_map]
      rfl
    · rw [effect.trades]
      exact fillTrades_aggressor order record.timestamp _ _
    · intro side resting
      rw [effect.filled, ← effect.rests_iff]
      exact effect.mem_resting valid newId side resting
    · rw [effect.filled, effect.status]
      split_ifs with full market nothing
      · simp
      · simp
      · simp [nothing]
      · simp [nothing]

theorem ledger_balances_sample : (5 : Int) =
    tradedAs Trade.aggressorOrderId (Sample.records.flatMap Record.trades) "ORD-0" +
      tradedAs Trade.restingOrderId (Sample.records.flatMap Record.trades) "ORD-0" +
      Sample.withdrawal.after.restingQuantity "ORD-0" +
      (Sample.records.map fun record => record.cancelledQuantity "ORD-0").sum +
      (Sample.records.map fun record => record.rejectedQuantity "ORD-0").sum :=
  (ledger_balances Sample.run Sample.freshIds Sample.positiveQuantities).1
    ⟨.ask, .limit, 101, 5, "ORD-0", "mm-1"⟩ (by decide)

end MarketSandbox
