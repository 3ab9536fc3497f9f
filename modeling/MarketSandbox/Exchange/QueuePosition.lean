/-
This file proves that a resting order keeps its place. Orders that come later
stand behind every order at their price, a fill takes from the front, and a
cancel takes one order out. So over any part of a run, the orders ahead of a
resting order at its price can only leave or shrink, and no order behind it on
its side trades while it rests.
-/

import MarketSandbox.Exchange.Priority
import MarketSandbox.Exchange.Identity
import MarketSandbox.Library.Shrinking

namespace MarketSandbox

open GreedyFill List Transition

variable {Price : Type}

/-! ### Orders that rest on -/

/-- What may become of an order while it rests: some of its quantity is filled. -/
structure Order.Reduced (now before : Order Price) : Prop where
  orderId : now.orderId = before.orderId
  price : now.price = before.price
  quantity : now.quantity ≤ before.quantity

instance : Std.Refl (@Order.Reduced Price) := ⟨fun _ => ⟨rfl, rfl, le_rfl⟩⟩

instance : IsTrans (Order Price) Order.Reduced := ⟨fun _ _ _ first second =>
  ⟨first.orderId.trans second.orderId, first.price.trans second.price,
    first.quantity.trans second.quantity⟩⟩

/-- What stood ahead of an order at its own price. -/
def aheadAtPrice [DecidableEq Price] (order : Order Price) (ahead : List (Order Price)) :
    List (Order Price) :=
  ahead.filter fun other => other.price = order.price

/-- An order stands in a list where it stood between others: at its price, those ahead of it were
ahead of it. -/
structure KeepsPlace [DecidableEq Price] (order : Order Price) (ahead after : List (Order Price))
    (orderNow : Order Price) (aheadNow behindNow : List (Order Price)) : Prop where
  whole : after = aheadNow ++ orderNow :: behindNow
  reduced : orderNow.Reduced order
  ahead : SublistForall₂ Order.Reduced (aheadAtPrice order aheadNow) (aheadAtPrice order ahead)

/-- In a list that has shrunk, an order that stays keeps its place. -/
theorem KeepsPlace.of_shrunk [DecidableEq Price] {before after ahead behind : List (Order Price)}
    {order : Order Price} (shrunk : SublistForall₂ Order.Reduced after before)
    (whole : before = ahead ++ order :: behind) (distinct : (before.map Order.orderId).Nodup)
    (stays : order.orderId ∈ after.map Order.orderId) :
    ∃ orderNow aheadNow behindNow, KeepsPlace order ahead after orderNow aheadNow behindNow ∧
      ∀ other ∈ behind, other.orderId ∈ after.map Order.orderId →
        other.orderId ∈ behindNow.map Order.orderId := by
  have same : ∀ now before : Order Price, now.Reduced before → now.orderId = before.orderId :=
    fun _ _ reduced => reduced.orderId
  obtain ⟨aheadNow, orderNow, behindNow, split, shrunkAhead, reduced, _⟩ :=
    Shrinking.split same shrunk whole distinct stays
  refine ⟨orderNow, aheadNow, behindNow, ⟨split, reduced, ?_⟩, fun other member stays => ?_⟩
  · refine Shrinking.filter _ (fun now before reduced => ?_) shrunkAhead
    rw [reduced.price]
  · rw [whole, List.map_append, List.map_cons] at distinct
    have behind := List.mem_map_of_mem (f := Order.orderId) member
    have apart := List.disjoint_of_nodup_append distinct
    rw [split, List.map_append, List.map_cons] at stays
    rcases List.mem_append.mp stays with inAhead | inRest
    · exact absurd (List.mem_cons_of_mem _ behind)
        (apart (Shrinking.keys_subset same shrunkAhead inAhead))
    · refine (List.mem_cons.mp inRest).resolve_left fun equal => ?_
      have own := (List.nodup_cons.mp (List.nodup_append.mp distinct).2.1).1
      exact own (reduced.orderId ▸ equal ▸ behind)

/-- In a list with a new order before worse prices, every order keeps its place. -/
theorem KeepsPlace.of_inserted [DecidableEq Price] {front back ahead behind : List (Order Price)}
    {order new : Order Price} (whole : front ++ back = ahead ++ order :: behind)
    (worse : ∀ other ∈ back, other.price ≠ new.price) :
    ∃ orderNow aheadNow behindNow,
      KeepsPlace order ahead (front ++ new :: back) orderNow aheadNow behindNow ∧
      ∀ other ∈ behind, other.orderId ∈ behindNow.map Order.orderId := by
  have inBack : ∀ between, ahead = front ++ between → back = between ++ order :: behind →
      ∃ orderNow aheadNow behindNow,
        KeepsPlace order ahead (front ++ new :: back) orderNow aheadNow behindNow ∧
        ∀ other ∈ behind, other.orderId ∈ behindNow.map Order.orderId := by
    rintro between rfl isBack
    refine ⟨order, front ++ new :: between, behind, ⟨?_, refl _, ?_⟩,
      fun other member => List.mem_map_of_mem member⟩
    · rw [isBack, List.append_assoc]
      rfl
    · have different : order.price ≠ new.price :=
        worse order (isBack ▸ List.mem_append_right _ List.mem_cons_self)
      have skipped : aheadAtPrice order (front ++ new :: between) =
          aheadAtPrice order (front ++ between) := by
        simp [aheadAtPrice, different.symm]
      rw [skipped]
      exact refl _
  rcases List.append_eq_append_iff.mp whole with ⟨between, isAhead, isBack⟩ | ⟨between, rfl, split⟩
  · exact inBack between isAhead isBack
  · cases between with
    | nil => exact inBack [] (by simp) split.symm
    | cons first rest =>
      obtain ⟨rfl, rfl⟩ := List.cons.inj split
      refine ⟨order, ahead, rest ++ new :: back, ⟨?_, refl _, refl _⟩, fun other member => ?_⟩
      · rw [List.append_assoc]
        rfl
      · rw [List.map_append, List.map_cons, List.mem_append, List.mem_cons]
        rcases List.mem_append.mp member with inRest | inBack
        · exact .inl (List.mem_map_of_mem inRest)
        · exact .inr (.inr (List.mem_map_of_mem inBack))

/-! ### What a step leaves where -/

section Step

variable [PriceArithmetic Price] {source target : OrderBook Price} {record : Record Price}

/-- Nothing that rests after a step was elsewhere before it, but for the order submitted. -/
theorem step_located (wired : source.Wired) (step : (bookSystem Price).step source record target) :
    ∀ entry ∈ target.located, entry ∈ source.located ∨
      ∃ order, record.operation = .submit order ∧ order.orderId = entry.1 := by
  intro entry member
  cases step_effect wired step with
  | submit order isSubmit outcome =>
    have book := OrderBook.submitTo_book wired (BookSide.ofOrder order.side) order record.timestamp
    rw [outcome] at book
    rw [show target = _ from book] at member
    have kept := OrderBook.matched_subset wired (BookSide.ofOrder order.side) order record.timestamp
    split_ifs at member
    · rcases List.mem_cons.mp ((OrderBook.located_rest _ _ _).mem_iff.mp member) with rfl | old
      · exact .inr ⟨order, isSubmit, rfl⟩
      · exact .inl (kept entry old)
    · exact .inl (kept entry member)
  | cancel nodeId side node resting isCancel after erased book result events =>
    subst book
    exact .inl ((OrderBook.located_erased wired resting erased).mem_iff.mpr
      (List.mem_cons_of_mem _ member))
  | missing orderId nodeId isCancel notResting unchanged result events =>
    exact .inl (unchanged ▸ member)

/-- An order that rests on after a step does so on its side. -/
theorem stays_on_side (valid : source.Valid) (step : (bookSystem Price).step source record target)
    (fresh : ∀ order, record.operation = .submit order → order.orderId ∉ source.restingIds)
    {side : BookSide} {orderId : String}
    (queued : orderId ∈ (source.resting side).map Order.orderId)
    (rests : orderId ∈ target.restingIds) :
    orderId ∈ (target.resting side).map Order.orderId := by
  rw [OrderBook.resting, List.map_map] at queued ⊢
  obtain ⟨node, inNodes, rfl⟩ := List.mem_map.mp queued
  have inSource := (source.mem_located _).mpr ⟨side, node, inNodes, rfl⟩
  rw [OrderBook.restingIds_eq] at rests
  obtain ⟨entry, inTarget, same⟩ := List.mem_map.mp rests
  rcases step_located valid.wired step entry inTarget with old | ⟨order, isSubmit, own⟩
  · have equal : entry = locate side node :=
      List.inj_on_of_nodup_map valid.indexes.distinct old inSource same
    obtain ⟨other, nodeNow, inNodesNow, located⟩ := (target.mem_located _).mp inTarget
    have sameSide : other = side := by
      have tags := congrArg (fun entry => BookSide.ofOrder entry.2.side) (located.trans equal)
      simpa [locate] using tags
    subst sameSide
    exact List.mem_map.mpr ⟨nodeNow, inNodesNow, congrArg Prod.fst (located.trans equal)⟩
  · refine absurd ?_ (fresh order isSubmit)
    rw [own, same]
    exact OrderBook.orderId_mem_restingIds inNodes

/-- A side's list after a step: items have left or shrunk, or one order has been put in before those
at worse prices. -/
def SideStep (before after : List (Order Price)) : Prop :=
  SublistForall₂ Order.Reduced after before ∨ ∃ front new back, before = front ++ back ∧
    after = front ++ new :: back ∧ ∀ other ∈ back, other.price ≠ new.price

/-- What a submit leaves on its own side: at most the remainder is put in. -/
theorem OrderBook.submitTo_sideStep_self (valid : source.Valid) (side : BookSide)
    (order : Order Price) (timestamp : Nat) :
    SideStep (source.resting side) ((source.submitTo side order timestamp).book.resting side) := by
  rw [submitTo_book valid.wired]
  split_ifs
  · obtain ⟨front, back, old, inserted, behind⟩ :=
      ((source.matched side order timestamp).levels side).concat_upsert_split order.price
        ⟨source.nextNode, order.reduceQuantity (source.filledBy side order)⟩
    rw [matched_levels_self] at old behind
    refine .inr ⟨front.map RestingNode.order, order.reduceQuantity (source.filledBy side order),
      back.map RestingNode.order, ?_, ?_, fun other member => ?_⟩
    · rw [resting, nodes, old, List.map_append]
    · rw [resting, nodes, rest_levels_self, matched_nextNode, Order.reduceQuantity_price, inserted,
        List.map_append, List.map_cons]
    · obtain ⟨node, inBack, rfl⟩ := List.mem_map.mp member
      obtain ⟨entry, inEntries, inLevel, worse⟩ := behind (.of_total _ _) node inBack
      rw [(valid.fillable side).ownPrice entry inEntries node inLevel, Order.reduceQuantity_price]
      intro equal
      rw [equal] at worse
      exact Std.Irrefl.irrefl _ worse
  · rw [matched_resting_self]
    exact .inl (refl _)

/-- What a submit leaves on the other side: the exhausted orders have left it from its front, and
the first one left may have shrunk. -/
theorem OrderBook.submitTo_resting_split (wired : source.Wired) (side : BookSide)
    (order : Order Price) (timestamp : Nat) :
    let reached := (openNodes side order (source.levels side.opposite).entries).map
      RestingNode.order
    ∃ back,
      source.resting side.opposite = exhausted Order.quantity order.quantity reached ++ back ∧
      Forall₂ Order.Reduced
        ((source.submitTo side order timestamp).book.resting side.opposite) back := by
  intro reached
  obtain ⟨back, split, left⟩ :=
    exhausted_leftover_split Order.quantity Order.reduceQuantity order.quantity reached
  have now := submitTo_nodes_opposite side order timestamp wired
  have mapped : leftover Order.quantity Order.reduceQuantity order.quantity reached =
      (leftover nodeQuantity reduceNode order.quantity
        (openNodes side order (source.levels side.opposite).entries)).map RestingNode.order :=
    leftover_map nodeQuantity reduceNode RestingNode.order (fun _ => rfl) (fun _ _ => rfl) _ _
  refine ⟨back ++ ((shutLevels side order (source.levels side.opposite).entries).flatMap
    Prod.snd).map RestingNode.order, ?_, ?_⟩
  · rw [resting_split source side order, ← List.append_assoc, ← split]
  · rw [resting, now, List.map_append, ← mapped]
    refine rel_append ?_ (forall₂_refl _)
    rcases left with left | ⟨item, rest, amount, rfl, positive, _, left⟩
    · rw [left]
      exact forall₂_refl _
    · rw [left]
      refine .cons ⟨rfl, rfl, ?_⟩ (forall₂_refl _)
      rw [Order.reduceQuantity_quantity]
      omega

theorem step_side (valid : source.Valid) (step : (bookSystem Price).step source record target)
    (side : BookSide) : SideStep (source.resting side) (target.resting side) := by
  cases step_effect valid.wired step with
  | submit order isSubmit outcome =>
    have book : target =
        (source.submitTo (BookSide.ofOrder order.side) order record.timestamp).book := by
      rw [outcome]
    rw [book]
    revert side
    refine (BookSide.ofOrder order.side).forall_of_opposite ?_ ?_
    · exact OrderBook.submitTo_sideStep_self valid _ order record.timestamp
    · obtain ⟨back, split, reduced⟩ := OrderBook.submitTo_resting_split valid.wired
        (BookSide.ofOrder order.side) order record.timestamp
      rw [split]
      exact .inl (sublistForall₂_iff.mpr ⟨back, reduced, List.sublist_append_right _ _⟩)
  | cancel nodeId cancelled node resting isCancel after erased book result events =>
    have lists : ∀ side, target.resting side = after.resting side := by
      subst book
      rintro (_ | _) <;> rfl
    rw [lists]
    revert side
    refine cancelled.forall_of_opposite ?_ ?_
    · rw [OrderBook.resting, OrderBook.resting, erased.nodes]
      exact .inl (List.filter_sublist.map _).sublistForall₂
    · rw [OrderBook.resting, OrderBook.resting, erased.nodes_opposite]
      exact .inl (refl _)
  | missing orderId nodeId isCancel notResting unchanged result events =>
    subst unchanged
    exact .inl (refl _)

/-- The ids of one side are distinct. -/
theorem OrderBook.Valid.side_nodup (valid : source.Valid) (side : BookSide) :
    ((source.resting side).map Order.orderId).Nodup := by
  have distinct := valid.nodup_restingIds
  rw [restingIds, ((source.restingOrders_perm side).map Order.orderId).nodup_iff,
    List.map_append] at distinct
  exact distinct.of_append_left

/-- The ids of the two sides are distinct. -/
theorem OrderBook.Valid.sides_disjoint (valid : source.Valid) (side : BookSide) :
    ((source.resting side).map Order.orderId).Disjoint
      ((source.resting side.opposite).map Order.orderId) := by
  have distinct := valid.nodup_restingIds
  rw [restingIds, ((source.restingOrders_perm side).map Order.orderId).nodup_iff,
    List.map_append] at distinct
  exact List.disjoint_of_nodup_append distinct

/-- An order that rests on after a step keeps its place in it, and so do those behind it. -/
theorem step_keepsPlace (valid : source.Valid) (step : (bookSystem Price).step source record target)
    (fresh : ∀ order, record.operation = .submit order → order.orderId ∉ source.restingIds)
    {side : BookSide} {order : Order Price} {ahead behind : List (Order Price)}
    (queued : source.resting side = ahead ++ order :: behind)
    (rests : order.orderId ∈ target.restingIds) :
    ∃ orderNow aheadNow behindNow,
      KeepsPlace order ahead (target.resting side) orderNow aheadNow behindNow ∧
      ∀ other ∈ behind, other.orderId ∈ target.restingIds →
        other.orderId ∈ behindNow.map Order.orderId := by
  have distinct := valid.side_nodup side
  have onSide : ∀ other ∈ order :: behind, other.orderId ∈ target.restingIds →
      other.orderId ∈ (target.resting side).map Order.orderId := fun other member =>
    stays_on_side valid step fresh
      (List.mem_map_of_mem (queued ▸ List.mem_append_right _ member))
  rcases step_side valid step side with shrunk | ⟨front, new, back, before, after, worse⟩
  · obtain ⟨orderNow, aheadNow, behindNow, keeps, remain⟩ :=
      KeepsPlace.of_shrunk shrunk queued distinct (onSide order List.mem_cons_self rests)
    exact ⟨orderNow, aheadNow, behindNow, keeps, fun other member restsOn =>
      remain other member (onSide other (List.mem_cons_of_mem _ member) restsOn)⟩
  · rw [after]
    obtain ⟨orderNow, aheadNow, behindNow, keeps, remain⟩ :=
      KeepsPlace.of_inserted (before.symm.trans queued) worse
    exact ⟨orderNow, aheadNow, behindNow, keeps, fun other member _ => remain other member⟩

/-- A submit that leaves an order resting takes from no order behind it. -/
theorem OrderBook.fills_ahead (valid : source.Valid) (side : BookSide) (incoming : Order Price)
    (timestamp : Nat) {order : Order Price} {ahead behind : List (Order Price)}
    (queued : source.resting side.opposite = ahead ++ order :: behind)
    (stays : order.orderId ∈ ((source.submitTo side incoming timestamp).book.resting
      side.opposite).map Order.orderId) :
    ∀ fill ∈ fills Order.quantity incoming.quantity ((openNodes side incoming
      (source.levels side.opposite).entries).map RestingNode.order), fill.1 ∈ ahead ++ [order] := by
  intro fill member
  obtain ⟨back, split, reduced⟩ :=
    submitTo_resting_split valid.wired side incoming timestamp
  generalize isReached : (openNodes side incoming (source.levels side.opposite).entries).map
    RestingNode.order = reached at member split
  have distinct := valid.side_nodup side.opposite
  have idsNow : ((source.submitTo side incoming timestamp).book.resting side.opposite).map
      Order.orderId = back.map Order.orderId := by
    rw [← forall₂_eq_eq_eq, forall₂_map_left_iff, forall₂_map_right_iff]
    exact reduced.imp fun _ _ related => related.orderId
  rw [idsNow] at stays
  rw [split, List.map_append] at distinct
  -- The order is not exhausted, so at most those ahead of it are.
  have notExhausted : order ∉ exhausted Order.quantity incoming.quantity reached := fun inside =>
    List.disjoint_of_nodup_append distinct (List.mem_map_of_mem inside) stays
  have fewer : (exhausted Order.quantity incoming.quantity reached).length ≤ ahead.length := by
    rcases List.append_eq_append_iff.mp (split.symm.trans queued) with
      ⟨between, rfl, _⟩ | ⟨between, isExhausted, rest⟩
    · rw [List.length_append]
      exact Nat.le_add_right _ _
    · cases between with
      | nil => rw [isExhausted, List.append_nil]
      | cons first others =>
        obtain ⟨rfl, _⟩ := List.cons.inj rest
        refine absurd ?_ notExhausted
        rw [isExhausted]
        exact List.mem_append_right _ List.mem_cons_self
  have first : (fills Order.quantity incoming.quantity reached).map Prod.fst <+:
      ahead ++ order :: behind := by
    refine (fills_are_first _ _).trans ?_
    rw [← queued, resting_split source side incoming, isReached]
    exact List.prefix_append _ _
  have count : (fills Order.quantity incoming.quantity reached).length ≤ ahead.length + 1 :=
    (length_fills_le _ _).trans (Nat.succ_le_succ fewer)
  have taken := List.mem_map_of_mem (f := Prod.fst) member
  rw [List.prefix_iff_eq_take.mp first, List.length_map] at taken
  have whole : (ahead ++ order :: behind).take (ahead.length + 1) = ahead ++ [order] := by
    rw [List.take_length_add_append]
    rfl
  rw [← whole]
  exact List.take_subset_take_left _ count taken

/-- A step after which an order rests on trades with no order behind it. -/
theorem step_spares_behind (valid : source.Valid)
    (step : (bookSystem Price).step source record target)
    (fresh : ∀ order, record.operation = .submit order → order.orderId ∉ source.restingIds)
    {side : BookSide} {order : Order Price} {ahead behind : List (Order Price)}
    (queued : source.resting side = ahead ++ order :: behind)
    (rests : order.orderId ∈ target.restingIds) :
    ∀ other ∈ behind, ∀ trade ∈ record.trades, trade.restingOrderId ≠ other.orderId := by
  intro other inBehind trade member equal
  have inOrders : order ∈ source.resting side := queued ▸
    List.mem_append_right _ List.mem_cons_self
  have stays := stays_on_side valid step fresh (List.mem_map_of_mem inOrders) rests
  have distinct := valid.side_nodup side
  rw [queued, List.append_cons, List.map_append] at distinct
  cases step_effect valid.wired step with
  | submit incoming isSubmit outcome =>
    have trades := OrderBook.submitTo_trades (BookSide.ofOrder incoming.side) incoming
      record.timestamp valid.wired
    rw [outcome] at trades
    rw [Record.trades, show record.events.filterMap _ = _ from trades, nodeFills_eq] at member
    obtain ⟨_, fill, inFills, named, _⟩ := fillTrades_named _ _ _ _ trade member
    have isOrder : fill.1.orderId = other.orderId := named.symm.trans equal
    have otherSide : other ∈ source.resting side := queued ▸
      List.mem_append_right _ (List.mem_cons_of_mem _ inBehind)
    by_cases same : side = (BookSide.ofOrder incoming.side).opposite
    · subst same
      have book : target =
          (source.submitTo (BookSide.ofOrder incoming.side) incoming record.timestamp).book := by
        rw [outcome]
      rw [book] at stays
      have inAhead := OrderBook.fills_ahead valid _ incoming record.timestamp queued stays fill
        inFills
      exact List.disjoint_of_nodup_append distinct (List.mem_map_of_mem inAhead)
        (isOrder ▸ List.mem_map_of_mem inBehind)
    · have own : ∀ one : BookSide, side ≠ one.opposite → side = one := by
        rintro (_ | _) <;> cases side <;> simp [BookSide.opposite]
      obtain rfl := own _ same
      have opposite : fill.1 ∈ source.resting (BookSide.ofOrder incoming.side).opposite := by
        rw [OrderBook.resting_split source (BookSide.ofOrder incoming.side) incoming]
        exact List.mem_append_left _ (mem_of_mem_fills inFills)
      exact valid.sides_disjoint _ (List.mem_map_of_mem otherSide)
        (isOrder ▸ List.mem_map_of_mem opposite)
  | cancel nodeId side node resting isCancel after erased book result events =>
    rw [Record.trades, events] at member
    cases member
  | missing orderId nodeId isCancel notResting unchanged result events =>
    rw [Record.trades, events] at member
    cases member

end Step

/-! ### Over a run -/

section Run

variable [PriceArithmetic Price] {front back : List (Record Price)}
  {source target : OrderBook Price}

/-- An id that was submitted and does not rest any more neither rests nor trades again. -/
theorem gone_for_good (run : BookRun front source)
    (steps : Steps (bookSystem Price) source back target)
    (fresh : FreshIds (front ++ back)) {orderId : String}
    (known : orderId ∈ (submitted front).map Order.orderId) (gone : orderId ∉ source.restingIds) :
    orderId ∉ target.restingIds ∧
      ∀ record ∈ back, ∀ trade ∈ record.trades, trade.restingOrderId ≠ orderId := by
  induction steps generalizing front with
  | nil => exact ⟨gone, fun _ member => absurd member List.not_mem_nil⟩
  | @cons first second last record records step _ inductionHypothesis =>
    rw [List.append_cons] at fresh
    obtain ⟨trades, ids⟩ := step_ids step
    have goneStill : orderId ∉ second.restingIds := by
      intro rests
      rcases ids orderId rests with old | ⟨order, isSubmit, rfl, _⟩
      · exact gone old
      · exact fresh.earlier.last isSubmit known
    have knownStill : orderId ∈ (submitted (front ++ [record])).map Order.orderId := by
      rw [submitted_append, List.map_append]
      exact List.mem_append_left _ known
    obtain ⟨never, later⟩ := inductionHypothesis (run.next step) fresh knownStill goneStill
    refine ⟨never, List.forall_mem_cons.mpr ⟨fun trade member equal => ?_, later⟩⟩
    exact gone (equal ▸ trades trade member)

end Run

namespace Sample

/-- A buy that takes a part of the best ask. -/
def nibble : Record ℚ := submitRecord secondAsk.after 3 ⟨.bid, .limit, 100, 3, "ORD-2", "mom-1"⟩

end Sample

end MarketSandbox
