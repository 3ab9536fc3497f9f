/-
This file proves price-time priority. The book is never crossed or locked: a
remainder rests only when the matching loop has stopped at the limit or has
emptied the opposite side. A submit is the greedy fill of the opposite side's
orders sorted by price and, within a price, by arrival in the run; arrival is
nowhere stored, so that the lists are in arrival order is an invariant of runs.
-/

import MarketSandbox.Exchange.Reports
import MarketSandbox.Exchange.Run
import Mathlib.Algebra.BigOperators.Group.List.Basic
import Mathlib.Data.List.Sort
import Mathlib.Data.List.TakeWhile

namespace MarketSandbox

open GreedyFill

variable {Price : Type}

namespace OrderBook

section Located

variable [LT Price]

/-- Nodes of a book whose entries another book has, found in that book. -/
theorem exists_located {book after : OrderBook Price}
    (subset : ∀ entry ∈ after.located, entry ∈ book.located) {side : BookSide}
    {node : RestingNode Price} (member : node ∈ after.nodes side) :
    ∃ original ∈ book.nodes side, locate side original = locate side node := by
  have inBook := subset _ ((after.mem_located _).mpr ⟨side, node, member, rfl⟩)
  obtain ⟨other, original, inNodes, same⟩ := (book.mem_located _).mp inBook
  have sameSide : other = side := by
    have tags := congrArg (fun entry => BookSide.ofOrder entry.2.side) same
    simpa [locate] using tags
  subst sameSide
  exact ⟨original, inNodes, same⟩

/-- Every bid's price is below every ask's. -/
def Uncrossed (book : OrderBook Price) : Prop :=
  ∀ bid ∈ book.nodes .bid, ∀ ask ∈ book.nodes .ask, bid.order.price < ask.order.price

theorem uncrossed_iff (book : OrderBook Price) (side : BookSide) :
    book.Uncrossed ↔ ∀ node ∈ book.nodes side, ∀ other ∈ book.nodes side.opposite,
      side.opposite.before node.order.price other.order.price := by
  cases side with
  | bid => exact Iff.rfl
  | ask => exact ⟨fun uncrossed ask inAsks bid inBids => uncrossed bid inBids ask inAsks,
      fun uncrossed bid inBids ask inAsks => uncrossed ask inAsks bid inBids⟩

theorem Uncrossed.subset {book after : OrderBook Price} (uncrossed : book.Uncrossed)
    (subset : ∀ entry ∈ after.located, entry ∈ book.located) : after.Uncrossed := by
  intro bid inBids ask inAsks
  obtain ⟨oldBid, inOldBids, sameBid⟩ := exists_located subset inBids
  obtain ⟨oldAsk, inOldAsks, sameAsk⟩ := exists_located subset inAsks
  have bidPrice : oldBid.order.price = bid.order.price :=
    congrArg (fun entry => entry.2.price) sameBid
  have askPrice : oldAsk.order.price = ask.order.price :=
    congrArg (fun entry => entry.2.price) sameAsk
  rw [← bidPrice, ← askPrice]
  exact uncrossed oldBid inOldBids oldAsk inOldAsks

end Located

variable [PriceOperations Price]

/-! ### The book is never crossed -/

/-- From the first blocked level on, every level is blocked. -/
theorem shutLevels_blocked {side : BookSide} {order : Order Price}
    {entries : List (Price × List (RestingNode Price))}
    (sorted : (entries.map Prod.fst).Pairwise side.opposite.before) :
    ∀ entry ∈ shutLevels side order entries, Blocked side order entry.1 := by
  induction entries with
  | nil => exact fun _ member => nomatch member
  | cons head rest inductionHypothesis =>
    rw [List.map_cons, List.pairwise_cons] at sorted
    obtain ⟨headSorted, restSorted⟩ := sorted
    by_cases blocked : Blocked side order head.1
    · rw [shutLevels_cons_blocked side order head rest blocked]
      intro entry member
      rcases List.mem_cons.mp member with rfl | inRest
      · exact blocked
      · exact blocked.behind (headSorted entry.1 (List.mem_map_of_mem inRest))
    · rw [shutLevels_cons_open side order head rest blocked]
      exact inductionHypothesis restSorted

/-- When something stays wanted, every order left on the opposite side is beyond the limit. -/
theorem matched_blocked {book : OrderBook Price} (valid : book.Valid) (side : BookSide)
    (order : Order Price) (timestamp : Nat)
    (unfilled : book.filledBy side order < order.quantity) (node : RestingNode Price)
    (member : node ∈ (book.matched side order timestamp).nodes side.opposite) :
    Blocked side order node.order.price := by
  have fillable := valid.fillable side.opposite
  have loops := (matchLevels_eq side order timestamp (book.levels side.opposite).entries
    book.startMatch fillable.ownPrice).1
  have entries := matched_entries book side order timestamp
  rw [matchLevels_unfilled side order timestamp _ _ fillable (by
    rw [loops, startMatch_fill]
    exact unfilled)] at entries
  obtain ⟨entry, inEntries, inLevel⟩ := (SortedMap.mem_concat _ _).mp member
  rw [((valid.matched side order timestamp).fillable side.opposite).ownPrice entry inEntries node
    inLevel]
  rw [entries] at inEntries
  exact shutLevels_blocked (book.levels side.opposite).sorted entry inEntries

theorem Uncrossed.submitTo {book : OrderBook Price} (uncrossed : book.Uncrossed)
    (valid : book.Valid) (side : BookSide) (order : Order Price) (timestamp : Nat)
    (remainder : Rests order (book.filledBy side order) →
      book.filledBy side order < order.quantity) :
    (book.submitTo side order timestamp).book.Uncrossed := by
  have matched := uncrossed.subset (matched_subset valid.wired side order timestamp)
  rw [submitTo_book valid.wired]
  split_ifs with rests
  · rw [uncrossed_iff _ side]
    intro node member other otherMember
    rw [rest_nodes_opposite] at otherMember
    rcases List.mem_cons.mp ((rest_nodes_self _ _ _).mem_iff.mp member) with rfl | old
    · -- The remainder itself: everything left opposite is beyond its limit.
      have blocked := matched_blocked valid side order timestamp (remainder rests) other otherMember
      exact (side.beyondLimit_iff _ _).mp blocked.2
    · exact (uncrossed_iff _ side).mp matched node old other otherMember
  · exact matched

end OrderBook

/-- The book is never crossed or locked, whatever the sides and types of the orders. -/
theorem never_crossed [PriceArithmetic Price] {records : List (Record Price)}
    {book : OrderBook Price} (run : BookRun records book) (fresh : FreshIds records)
    (positive : PositiveQuantities records) :
    ∀ bid ∈ book.resting .bid, ∀ ask ∈ book.resting .ask, bid.price < ask.price := by
  have uncrossed : book.Uncrossed := by
    refine bookRun_invariant (fun _ book => book.Uncrossed) ?_ ?_ run fresh
      positive.noNegativeRemainder (.of_linear _)
    · intro bid member
      cases member
    · intro records source record target reached newIds sound _ step uncrossed
      have valid := reached.valid
      cases step_effect valid.wired step with
      | submit order isSubmit outcome =>
        have after := uncrossed.submitTo valid (BookSide.ofOrder order.side) order record.timestamp
          fun rests => OrderBook.remainder_of_nonneg _ _ _
            (sound order (mem_submitted_append.mpr (.inr isSubmit)) rests.1) rests
        rwa [outcome] at after
      | cancel nodeId side node resting isCancel after erased book result events =>
        subst book
        refine uncrossed.subset fun entry member => ?_
        exact (OrderBook.located_erased valid.wired resting erased).mem_iff.mpr
          (List.mem_cons_of_mem _ member)
      | missing orderId nodeId isCancel notResting unchanged result events =>
        subst unchanged
        exact uncrossed
  intro bid inBids ask inAsks
  obtain ⟨bidNode, bidMember, rfl⟩ := List.mem_map.mp inBids
  obtain ⟨askNode, askMember, rfl⟩ := List.mem_map.mp inAsks
  exact uncrossed bidNode bidMember askNode askMember

theorem never_crossed_sample : ∃ bid ∈ Sample.sweep.after.resting .bid,
    ∃ ask ∈ Sample.sweep.after.resting .ask, bid.price < ask.price :=
  ⟨⟨.bid, .limit, 100, 2, "ORD-2", "mom-1"⟩, by decide,
    ⟨.ask, .limit, 101, 5, "ORD-0", "mm-1"⟩, by decide,
    never_crossed Sample.sweepRun (by decide) (by decide) _ (by decide) _ (by decide)⟩

/-! ### Resting orders are in arrival order -/

/-- The ids in the order in which they came to rest in the run. -/
def arrivals [LinearOrder Price] (records : List (Record Price)) : List String :=
  records.flatMap fun record =>
    record.after.restingIds.filter fun orderId => orderId ∉ record.before.restingIds

/-- Within a price, nodes are in order of arrival. -/
def Queued (arrived : List String) (nodes : List (RestingNode Price)) : Prop :=
  (nodes.map fun node => (node.order.price, node.order.orderId)).Pairwise fun first second =>
    first.1 = second.1 → arrived.idxOf first.2 < arrived.idxOf second.2

namespace OrderBook

section Arrived

variable [LinearOrder Price]

/-- The resting orders have arrived, and each side is queued by arrival. -/
structure InArrivalOrder (arrived : List String) (book : OrderBook Price) : Prop where
  known : ∀ orderId ∈ book.restingIds, orderId ∈ arrived
  queued : ∀ side, Queued arrived (book.nodes side)

/-- Later arrivals do not change the order of the earlier ones. -/
theorem InArrivalOrder.later {arrived : List String} {book : OrderBook Price}
    (ordered : book.InArrivalOrder arrived) (more : List String) :
    book.InArrivalOrder (arrived ++ more) where
  known orderId member := List.mem_append_left _ (ordered.known orderId member)
  queued side := by
    refine (ordered.queued side).imp_of_mem ?_
    intro first second firstMember secondMember earlier samePrice
    have inArrived : ∀ view ∈ (book.nodes side).map
        (fun node => (node.order.price, node.order.orderId)), view.2 ∈ arrived := by
      intro view member
      obtain ⟨node, inNodes, rfl⟩ := List.mem_map.mp member
      exact ordered.known _ (orderId_mem_restingIds inNodes)
    rw [List.idxOf_append_of_mem (inArrived first firstMember),
      List.idxOf_append_of_mem (inArrived second secondMember)]
    exact earlier samePrice

/-- A book with fewer nodes, or reduced ones, in the same places. -/
theorem InArrivalOrder.sublist {arrived : List String} {book after : OrderBook Price}
    (ordered : book.InArrivalOrder arrived)
    (ids : ∀ orderId ∈ after.restingIds, orderId ∈ book.restingIds)
    (sublist : ∀ side, ((after.nodes side).map fun node =>
      (node.order.price, node.order.orderId)).Sublist
        ((book.nodes side).map fun node => (node.order.price, node.order.orderId))) :
    after.InArrivalOrder arrived where
  known orderId member := ordered.known orderId (ids orderId member)
  queued side := (ordered.queued side).sublist (sublist side)

end Arrived

variable [PriceArithmetic Price]

theorem InArrivalOrder.matched {arrived : List String} {book : OrderBook Price}
    (ordered : book.InArrivalOrder arrived) (valid : book.Valid) (side : BookSide)
    (order : Order Price) (timestamp : Nat) :
    (book.matched side order timestamp).InArrivalOrder arrived := by
  refine ordered.sublist (matched_restingIds valid.wired side order timestamp) ?_
  have opposite := map_split nodeQuantity reduceNode
    (fun node : RestingNode Price => (node.order.price, node.order.orderId)) (fun _ _ => rfl)
    order.quantity (openNodes side order (book.levels side.opposite).entries)
  refine side.forall_of_opposite ?_ ?_
  · rw [matched_nodes_self]
  · rw [matched_nodes_opposite valid.wired, nodes_split book side order, List.map_append,
      List.map_append, opposite]
    exact (List.sublist_append_right _ _).append_right _

theorem InArrivalOrder.rest {arrived : List String} {book : OrderBook Price}
    (ordered : book.InArrivalOrder arrived) (valid : book.Valid) (side : BookSide)
    (order : Order Price) (fresh : order.orderId ∉ arrived) :
    (book.rest side order).InArrivalOrder (arrived ++ [order.orderId]) := by
  have later := ordered.later [order.orderId]
  constructor
  · intro orderId member
    rw [restingIds_eq] at member
    rcases List.mem_cons.mp (((book.located_rest side order).map Prod.fst).mem_iff.mp member) with
      rfl | old
    · exact List.mem_append_right _ List.mem_cons_self
    · rw [← restingIds_eq] at old
      exact later.known orderId old
  · refine side.forall_of_opposite ?_ ?_
    · -- The new node stands behind every node of its price and before the worse levels.
      obtain ⟨front, back, old, inserted, behind⟩ := (book.levels side).concat_upsert_split
        order.price ⟨book.nextNode, order⟩
      have queued := later.queued side
      rw [Queued, nodes, old, List.map_append, List.pairwise_append] at queued
      obtain ⟨frontQueued, backQueued, across⟩ := queued
      rw [Queued, nodes, rest_levels_self, inserted, List.map_append, List.map_cons,
        List.pairwise_append, List.pairwise_cons]
      refine ⟨frontQueued, ⟨?_, backQueued⟩, ?_⟩
      · intro view member samePrice
        obtain ⟨node, inBack, rfl⟩ := List.mem_map.mp member
        obtain ⟨entry, inEntries, inLevel, worse⟩ := behind (.of_total _ _) node inBack
        have ownPrice := (valid.fillable side).ownPrice entry inEntries node inLevel
        rw [← ownPrice, ← show order.price = node.order.price from samePrice] at worse
        exact absurd worse (Std.Irrefl.irrefl _)
      · intro first firstMember second secondMember
        rcases List.mem_cons.mp secondMember with rfl | inBack
        · intro samePrice
          obtain ⟨node, inFront, rfl⟩ := List.mem_map.mp firstMember
          have inNodes : node ∈ book.nodes side := by
            rw [nodes, old]
            exact List.mem_append_left _ inFront
          have earlier := ordered.known _ (orderId_mem_restingIds inNodes)
          rw [List.idxOf_append_of_mem earlier, List.idxOf_append_of_notMem fresh,
            List.idxOf_cons_self, Nat.add_zero]
          exact List.idxOf_lt_length_of_mem earlier
        · exact across first firstMember second inBack
    · rw [rest_nodes_opposite]
      exact later.queued side.opposite

theorem InArrivalOrder.erased {arrived : List String} {book after : OrderBook Price}
    (ordered : book.InArrivalOrder arrived) (valid : book.Valid) {side : BookSide}
    {node : RestingNode Price} (member : node ∈ book.nodes side)
    (erased : Erased book side node after) : after.InArrivalOrder arrived := by
  refine ordered.sublist ?_ ?_
  · intro orderId inAfter
    rw [restingIds_eq] at inAfter ⊢
    have located := (located_erased valid.wired member erased).map Prod.fst
    exact located.mem_iff.mpr (List.mem_cons_of_mem _ inAfter)
  · refine side.forall_of_opposite ?_ ?_
    · rw [erased.nodes]
      exact List.filter_sublist.map _
    · rw [erased.nodes_opposite]

end OrderBook

/-! ### Arrival order over a run -/

section Arrivals

variable [PriceArithmetic Price]

theorem arrivals_append (records : List (Record Price)) (record : Record Price) :
    arrivals (records ++ [record]) = arrivals records ++
      record.after.restingIds.filter fun orderId => orderId ∉ record.before.restingIds := by
  rw [arrivals, List.flatMap_append, List.flatMap_singleton, arrivals]

/-- A step after which no new id rests brings no arrival. -/
theorem arrivals_unchanged (records : List (Record Price)) {record : Record Price}
    (ids : ∀ orderId ∈ record.after.restingIds, orderId ∈ record.before.restingIds) :
    arrivals (records ++ [record]) = arrivals records := by
  rw [arrivals_append, List.filter_eq_nil_iff.mpr, List.append_nil]
  intro orderId member
  simpa using ids orderId member

/-- A submit whose remainder rests brings one arrival. -/
theorem arrivals_rest (records : List (Record Price)) {record : Record Price} {side : BookSide}
    {order : Order Price} (valid : record.before.Valid) (resting : Order Price)
    (fresh : resting.orderId ∉ record.before.restingIds)
    (rested : record.after =
      (record.before.matched side order record.timestamp).rest side resting) :
    arrivals (records ++ [record]) = arrivals records ++ [resting.orderId] := by
  have located := ((record.before.matched side order record.timestamp).located_rest side
    resting).map Prod.fst
  rw [← rested, List.map_cons, ← OrderBook.restingIds_eq, ← OrderBook.restingIds_eq] at located
  have others : (record.before.matched side order record.timestamp).restingIds.filter
      (fun orderId => orderId ∉ record.before.restingIds) = [] := by
    refine List.filter_eq_nil_iff.mpr fun orderId member => ?_
    simpa using OrderBook.matched_restingIds valid.wired side order record.timestamp orderId member
  have arrived := located.filter fun orderId => orderId ∉ record.before.restingIds
  rw [List.filter_cons_of_pos (by exact decide_eq_true fresh), others] at arrived
  rw [arrivals_append, List.perm_singleton.mp arrived]
  rfl

/-- What the run so far says about the order of the book's lists. -/
structure Arranged (records : List (Record Price)) (book : OrderBook Price) : Prop where
  ordered : book.InArrivalOrder (arrivals records)
  submittedOnly : ∀ orderId ∈ arrivals records, orderId ∈ (submitted records).map Order.orderId

theorem Arranged.step {records : List (Record Price)} {source target : OrderBook Price}
    {record : Record Price} (arranged : Arranged records source) (valid : source.Valid)
    (fresh : FreshIds (records ++ [record]))
    (step : (bookSystem Price).step source record target) :
    Arranged (records ++ [record]) target := by
  have older : ∀ orderId ∈ (submitted records).map Order.orderId,
      orderId ∈ (submitted (records ++ [record])).map Order.orderId := by
    intro orderId member
    rw [submitted_append, List.map_append]
    exact List.mem_append_left _ member
  obtain ⟨rfl, rfl, _⟩ := id step
  have unchanged (ordered : record.after.InArrivalOrder (arrivals records))
      (ids : ∀ orderId ∈ record.after.restingIds, orderId ∈ record.before.restingIds) :
      Arranged (records ++ [record]) record.after := by
    constructor
    · rwa [arrivals_unchanged records ids]
    · rw [arrivals_unchanged records ids]
      exact fun orderId member => older orderId (arranged.submittedOnly orderId member)
  cases step_effect valid.wired step with
  | submit order isSubmit outcome =>
    have matched := arranged.ordered.matched valid (BookSide.ofOrder order.side) order
      record.timestamp
    have book := OrderBook.submitTo_book valid.wired (BookSide.ofOrder order.side) order
      record.timestamp
    rw [outcome] at book
    split_ifs at book with rests
    · have newId : order.orderId ∉ arrivals records := fun member =>
        fresh.last isSubmit (arranged.submittedOnly _ member)
      have notResting : order.orderId ∉ record.before.restingIds := fun member =>
        newId (arranged.ordered.known _ member)
      have arrived : arrivals (records ++ [record]) = arrivals records ++ [order.orderId] :=
        arrivals_rest records valid (order.reduceQuantity
          (record.before.filledBy (BookSide.ofOrder order.side) order)) notResting book
      constructor
      · rw [arrived, show record.after = _ from book]
        exact matched.rest (valid.matched _ order record.timestamp) _
          (order.reduceQuantity (record.before.filledBy (BookSide.ofOrder order.side) order)) newId
      · rw [arrived]
        intro orderId member
        rcases List.mem_append.mp member with old | own
        · exact older orderId (arranged.submittedOnly orderId old)
        · rw [List.mem_singleton.mp own]
          exact List.mem_map.mpr ⟨order, mem_submitted_append.mpr (.inr isSubmit), rfl⟩
    · refine unchanged ?_ ?_
      · rwa [show record.after = _ from book]
      · rw [show record.after = _ from book]
        exact OrderBook.matched_restingIds valid.wired _ order record.timestamp
  | cancel nodeId side node resting isCancel after erased book result events =>
    have ids : ∀ orderId ∈ record.after.restingIds, orderId ∈ record.before.restingIds := by
      intro orderId member
      rw [book, OrderBook.restingIds_eq] at member
      rw [OrderBook.restingIds_eq]
      have located := (OrderBook.located_erased valid.wired resting erased).map Prod.fst
      exact located.mem_iff.mpr (List.mem_cons_of_mem _ member)
    refine unchanged ?_ ids
    have ordered := arranged.ordered.erased valid resting erased
    rw [book]
    refine ⟨ordered.known, fun other => ?_⟩
    cases other with
    | bid => exact ordered.queued .bid
    | ask => exact ordered.queued .ask
  | missing orderId nodeId isCancel notResting same result events =>
    refine unchanged ?_ ?_
    · rw [same]
      exact arranged.ordered
    · rw [same]
      exact fun _ member => member

theorem bookRun_arranged {records : List (Record Price)} {book : OrderBook Price}
    (run : BookRun records book) (fresh : FreshIds records)
    (sound : NoNegativeRemainder records) : Arranged records book := by
  refine bookRun_invariant Arranged ?_ ?_ run fresh sound (.of_linear _)
  · exact ⟨⟨fun _ member => (nomatch member), fun side => by cases side <;> exact .nil⟩,
      fun _ member => nomatch member⟩
  · intro records source record target reached newIds _ _ step arranged
    exact arranged.step reached.valid newIds step

end Arrivals

/-! ### The orders a limit blocks -/

section Limit

variable [PriceOperations Price]

namespace OrderBook

theorem open_not_blocked {book : OrderBook Price} (valid : book.Valid) (side : BookSide)
    (order : Order Price) : ∀ resting ∈
      (openNodes side order (book.levels side.opposite).entries).map RestingNode.order,
      ¬ Blocked side order resting.price := by
  intro resting member
  obtain ⟨node, inOpen, rfl⟩ := List.mem_map.mp member
  obtain ⟨entry, inTaken, inLevel⟩ := List.mem_flatMap.mp inOpen
  rw [(valid.fillable side.opposite).ownPrice entry (List.takeWhile_subset _ inTaken) node inLevel]
  simpa using List.mem_takeWhile_imp inTaken

theorem shut_blocked {book : OrderBook Price} (valid : book.Valid) (side : BookSide)
    (order : Order Price) : ∀ resting ∈
      ((shutLevels side order (book.levels side.opposite).entries).flatMap Prod.snd).map
        RestingNode.order, Blocked side order resting.price := by
  intro resting member
  obtain ⟨node, inShut, rfl⟩ := List.mem_map.mp member
  obtain ⟨entry, inDropped, inLevel⟩ := List.mem_flatMap.mp inShut
  have inEntries : entry ∈ (book.levels side.opposite).entries :=
    (List.dropWhile_sublist _).subset inDropped
  rw [(valid.fillable side.opposite).ownPrice entry inEntries node inLevel]
  exact shutLevels_blocked (book.levels side.opposite).sorted entry inDropped

/-- The open levels hold exactly the orders that the limit does not block. -/
theorem filter_open {book : OrderBook Price} (valid : book.Valid) (side : BookSide)
    (order : Order Price) :
    ((book.resting side.opposite).filter fun resting => ¬ Blocked side order resting.price) =
      (openNodes side order (book.levels side.opposite).entries).map RestingNode.order := by
  rw [resting_split book side order, List.filter_append,
    List.filter_eq_self.mpr fun resting member =>
      decide_eq_true (open_not_blocked valid side order resting member),
    List.filter_eq_nil_iff.mpr fun resting member => by
      simpa using shut_blocked valid side order resting member, List.append_nil]

/-- The shut levels hold exactly the orders that the limit blocks. -/
theorem filter_shut {book : OrderBook Price} (valid : book.Valid) (side : BookSide)
    (order : Order Price) :
    ((book.resting side.opposite).filter fun resting => Blocked side order resting.price) =
      ((shutLevels side order (book.levels side.opposite).entries).flatMap Prod.snd).map
        RestingNode.order := by
  rw [resting_split book side order, List.filter_append,
    List.filter_eq_nil_iff.mpr fun resting member => by
      simpa using open_not_blocked valid side order resting member,
    List.filter_eq_self.mpr fun resting member =>
      decide_eq_true (shut_blocked valid side order resting member), List.nil_append]

end OrderBook

end Limit

/-! ### Greedy matching -/

/-- A resting order trades before another: its price is better, or it is the same and it came
to rest earlier. -/
def Precedes [LinearOrder Price] (records : List (Record Price)) (side : BookSide)
    (first second : Order Price) : Prop :=
  side.opposite.before first.price second.price ∨ (first.price = second.price ∧
    (arrivals records).idxOf first.orderId ≤ (arrivals records).idxOf second.orderId)

instance [LinearOrder Price] (records : List (Record Price)) (side : BookSide) :
    DecidableRel (Precedes records side) := fun _ _ =>
  inferInstanceAs (Decidable (_ ∨ _))

section Greedy

variable [PriceArithmetic Price]

namespace OrderBook

/-- An order's own side after its submit: the remainder, if it rests, stands last at its price. -/
theorem submitTo_find_self {book : OrderBook Price} (side : BookSide) (order : Order Price)
    (timestamp : Nat) (wired : book.Wired) (price : Price) :
    (((book.submitTo side order timestamp).book.levels side).find price).getD [] =
      ((book.levels side).find price).getD [] ++
        if Rests order (book.filledBy side order) ∧ price = order.price then
          [⟨book.nextNode, order.reduceQuantity (book.filledBy side order)⟩] else [] := by
  rw [submitTo_book wired]
  by_cases rests : Rests order (book.filledBy side order)
  · rw [if_pos rests, rest_levels_self, matched_levels_self, matched_nextNode,
      Order.reduceQuantity_price]
    by_cases same : price = order.price
    · rw [same, SortedMap.find_upsert_self _ (.of_total _ _), if_pos ⟨rests, rfl⟩, Option.getD_some]
    · rw [SortedMap.find_upsert_other _ (.of_total _ _) _ _ (.of_total _ _)
        (trichotomous_of _ _ _) same, if_neg fun both => same both.2, List.append_nil]
  · rw [if_neg rests, matched_levels_self, if_neg fun both => rests both.1, List.append_nil]

end OrderBook

/-- The orders an incoming order may trade with: the opposite side's resting orders by price
and arrival, cut for a limit order at its limit. -/
def eligible (records : List (Record Price)) (book : OrderBook Price) (side : BookSide)
    (order : Order Price) : List (Order Price) :=
  ((book.resting side.opposite).filter fun resting =>
    ¬ OrderBook.Blocked side order resting.price).insertionSort (Precedes records side)

/-- The opposite side is already sorted by price and arrival. -/
theorem resting_precedes {records : List (Record Price)} {book : OrderBook Price}
    (valid : book.Valid) (arranged : Arranged records book) (side : BookSide) :
    (book.resting side.opposite).Pairwise (Precedes records side) := by
  have byPrice := (book.levels side.opposite).concat_pairwise
    (valid.fillable side.opposite).ownPrice
  have byArrival := List.pairwise_map.mp (arranged.ordered.queued side.opposite)
  rw [OrderBook.resting, List.pairwise_map]
  refine (List.pairwise_and_iff.mpr ⟨byPrice, byArrival⟩).imp ?_
  rintro first second ⟨better | samePrice, earlier⟩
  · exact .inl better
  · exact .inr ⟨samePrice, (earlier samePrice).le⟩

theorem eligible_eq {records : List (Record Price)} {book : OrderBook Price} (valid : book.Valid)
    (arranged : Arranged records book) (side : BookSide) (order : Order Price) :
    eligible records book side order =
      (OrderBook.openNodes side order (book.levels side.opposite).entries).map
        RestingNode.order := by
  rw [← OrderBook.filter_open valid, eligible]
  exact ((resting_precedes valid arranged side).sublist List.filter_sublist).insertionSort_eq

end Greedy

/-! ### Submitting fills greedily -/

theorem foldl_notional [Field Price] [LinearOrder Price] (fills : List (Order Price × Int))
    (start : Price) :
    fills.foldl (fun notional fill => notional + (fill.2 : Price) * fill.1.price) start =
      start + (fills.map fun fill => (fill.2 : Price) * fill.1.price).sum := by
  induction fills generalizing start with
  | nil => simp
  | cons fill rest inductionHypothesis =>
    rw [List.foldl_cons, inductionHypothesis, List.map_cons, List.sum_cons, add_assoc]

/-- Price-time priority matching is exactly greedy matching. -/
theorem submit_is_greedy [Field Price] [LinearOrder Price] {records : List (Record Price)}
    {book : OrderBook Price} (run : BookRun records book) (fresh : FreshIds records)
    (positive : PositiveQuantities records) (order : Order Price) (timestamp : Nat)
    (kind : order.orderType = .market ∨ order.orderType = .limit)
    (wants : 0 < order.quantity) :
    let side := BookSide.ofOrder order.side
    let offers := eligible records book side order
    let executed := fills Order.quantity order.quantity offers
    let filled := total Order.quantity order.quantity offers
    let outcome := book.submit order timestamp
    outcome.events.filterMap MarketEvent.trade? =
        fillTrades order timestamp book.tradeCounter executed ∧
      outcome.book.resting side.opposite =
        leftover Order.quantity Order.reduceQuantity order.quantity offers ++
          (book.resting side.opposite).filter
            (fun resting => OrderBook.Blocked side order resting.price) ∧
      (∀ price, (((outcome.book.levels side).find price).getD []).map RestingNode.order =
        (((book.levels side).find price).getD []).map RestingNode.order ++
          if order.orderType = .limit ∧ filled < order.quantity ∧ price = order.price then
            [order.reduceQuantity filled] else []) ∧
      outcome.result.filledQuantity = filled ∧
      outcome.result.avgPrice = if 0 < filled then
        (executed.map fun fill => (fill.2 : Price) * fill.1.price).sum / (filled : Price)
      else 0 := by
  intro side offers executed filled outcome
  have sound := positive.noNegativeRemainder
  have valid := (bookRun_reached run fresh sound (.of_linear _)).valid
  have arranged := bookRun_arranged run fresh sound
  have offersEq : offers = (OrderBook.openNodes side order
      (book.levels side.opposite).entries).map RestingNode.order :=
    eligible_eq valid arranged side order
  have executedEq : executed = nodeFills order.quantity (OrderBook.openNodes side order
      (book.levels side.opposite).entries) := by
    rw [nodeFills_eq, ← offersEq]
  have filledEq : filled = book.filledBy side order := by
    show ((fills _ _ offers).map Prod.snd).sum = _
    rw [show fills _ _ offers = _ from executedEq, nodeFills, List.map_map]
    rfl
  have outcomeEq : outcome = book.submitTo side order timestamp := book.submit_eq order timestamp
  refine ⟨?_, ?_, ?_, ?_, ?_⟩
  · rw [outcomeEq, OrderBook.submitTo_trades side order timestamp valid.wired, executedEq]
  · rw [outcomeEq, OrderBook.resting,
      OrderBook.submitTo_nodes_opposite side order timestamp valid.wired,
      List.map_append, OrderBook.filter_shut valid, offersEq,
      leftover_map nodeQuantity reduceNode RestingNode.order (fun _ => rfl) (fun _ _ => rfl)]
  · intro price
    have rests : (OrderBook.Rests order (book.filledBy side order) ∧ price = order.price) ↔
        (order.orderType = .limit ∧ filled < order.quantity ∧ price = order.price) := by
      have notMore := book.filledBy_le side order wants.le
      rw [filledEq, OrderBook.Rests]
      rcases kind with market | limit
      · simp [market]
      · simp only [limit, ne_eq, reduceCtorEq, not_false_eq_true, true_and]
        exact and_congr_left fun _ => by omega
    rw [outcomeEq, OrderBook.submitTo_find_self side order timestamp valid.wired, List.map_append]
    by_cases stays : order.orderType = .limit ∧ filled < order.quantity ∧ price = order.price
    · rw [if_pos stays, if_pos (rests.mpr stays), filledEq]
      rfl
    · rw [if_neg stays, if_neg fun both => stays (rests.mp both)]
      rfl
  · rw [outcomeEq, OrderBook.submitTo_filledQuantity side order timestamp valid.wired, filledEq]
  · rw [outcomeEq, OrderBook.submitTo_avgPrice side order timestamp valid.wired, foldl_notional,
      ← filledEq,
      executedEq]
    simp

theorem submit_is_greedy_sample :
    let order : Order ℚ := ⟨.bid, .limit, 100, 7, "ORD-2", "mom-1"⟩
    (Sample.secondAsk.after.submit order 3).result.filledQuantity =
      total Order.quantity 7
        (eligible [Sample.firstAsk, Sample.secondAsk] Sample.secondAsk.after .bid order) :=
  (submit_is_greedy Sample.askRun (by decide) (by decide)
    ⟨.bid, .limit, 100, 7, "ORD-2", "mom-1"⟩ 3 (.inr rfl) (by decide)).2.2.2.1

end MarketSandbox
