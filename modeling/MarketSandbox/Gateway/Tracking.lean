/-
This file proves that a normalizer that receives every batch tracks the book
exactly: its map holds the resting ids, each with the node that submitted the
order and the order's remaining quantity, so every trade is attributed to the
true owner. The map follows the quantities of the ledger, which the trades, the
remainder and the cancel of a step change in the same way on both sides.
-/

import MarketSandbox.Gateway.Emission

namespace MarketSandbox

variable {Price : Type} [PriceArithmetic Price]

/-! ### The size of the map -/

/-- A map that tracks a book has one entry per resting order. -/
theorem TracksExactly.size {owner : String → String → Prop} {resting : RestingMap}
    {book : OrderBook Price} (exactly : TracksExactly owner book.restingQuantity resting)
    (valid : book.Valid)
    (owned : ∀ orderId, 0 < book.restingQuantity orderId → ∃ node, owner orderId node) :
    resting.size = book.restingOrders.length := by
  have keys : (resting.entries.map Prod.fst).Perm book.restingIds := by
    refine (List.perm_ext_iff_of_nodup resting.nodup valid.nodup_restingIds).mpr fun orderId => ?_
    rw [InsertionMap.mem_keys_iff, ← OrderBook.restingQuantity_pos_iff valid]
    constructor
    · rintro ⟨entry, found⟩
      exact ((exactly orderId entry).mp found).1
    · intro positive
      obtain ⟨node, isOwner⟩ := owned orderId positive
      exact ⟨⟨node, book.restingQuantity orderId⟩,
        (exactly orderId _).mpr ⟨positive, rfl, isOwner⟩⟩
  have lengths := keys.length_eq
  rwa [List.length_map, OrderBook.restingIds, List.length_map] at lengths

theorem RestingMap.evict_of_size_le {resting : RestingMap} (bounded : resting.size ≤ 50000) :
    RestingMap.evict resting = resting := by
  rw [RestingMap.evict, RestingMap.evicted, if_neg (not_lt.mpr bounded)]

/-! ### One delivery -/

variable {records : List (Record Price)} {source target : OrderBook Price}

section Feed

variable {normalizer : Normalizer Price} {delivery : Delivery Price} {order : Order Price}
  (emitted : Emitted records source delivery.record target)
  (exactly : TracksExactly (Submitter records) source.restingQuantity normalizer.resting)
include emitted

omit emitted in
/-- A submit changes the submitter of no other id. -/
theorem submitter_append_submit {record : Record Price}
    (isSubmit : record.operation = .submit order) {orderId : String}
    (other : orderId ≠ order.orderId) (node : String) :
    Submitter (records ++ [record]) orderId node ↔ Submitter records orderId node := by
  refine submitter_append_iff fun later isLater same => ?_
  rw [isSubmit] at isLater
  rw [← Operation.submit.inj isLater] at same
  exact other same.symm

omit emitted in
/-- A cancel changes no submitter. -/
theorem submitter_append_cancel {record : Record Price} {cancelledId nodeId : String}
    (isCancel : record.operation = .cancel cancelledId nodeId) (orderId node : String) :
    Submitter (records ++ [record]) orderId node ↔ Submitter records orderId node := by
  refine submitter_append_iff fun order isOrder => ?_
  rw [isCancel] at isOrder
  cases isOrder

/-- Remembering an order that has come to rest, with what remains of it. -/
theorem Emitted.tracksExactly_set (isSubmit : delivery.record.operation = .submit order)
    (rests : delivery.record.result.status = .queued ∨
      delivery.record.result.status = .partialFill) {resting : RestingMap}
    (traded : TracksExactly (Submitter records)
      (afterTrades source.restingQuantity delivery.record.trades) resting) :
    TracksExactly (Submitter (records ++ [delivery.record])) target.restingQuantity
      (resting.set order.orderId
        ⟨order.nodeId, order.quantity - delivery.record.result.filledQuantity⟩) := by
  obtain ⟨positive, _, _⟩ := emitted.remainder_number isSubmit rests
  intro orderId entry
  rw [InsertionMap.get_set, Function.update_apply, emitted.restingQuantity_submit isSubmit]
  by_cases own : orderId = order.orderId
  · subst own
    rw [if_pos rfl, if_pos ⟨rests, rfl⟩, emitted.new_id_submitter isSubmit]
    constructor
    · intro isEntry
      obtain rfl := Option.some.inj isEntry
      exact ⟨positive, rfl, rfl⟩
    · rintro ⟨_, remaining, node⟩
      rw [← remaining, ← node]
  · rw [if_neg own, if_neg fun both => own both.2.symm, submitter_append_submit isSubmit own]
    exact traded orderId entry

include exactly

/-- A submit whose order comes to rest. -/
theorem TracksExactly.feed_rest
    (reached : Reached (records ++ [delivery.record]) target)
    (remainder : ∀ resting ∈ target.restingOrders,
      Remainder (records ++ [delivery.record]) resting)
    (bounded : target.restingOrders.length ≤ 50000)
    (isSubmit : delivery.record.operation = .submit order)
    (rests : delivery.record.result.status = .queued ∨
      delivery.record.result.status = .partialFill) :
    TracksExactly (Submitter (records ++ [delivery.record])) target.restingQuantity
      (normalizer.feed [delivery]).resting := by
  obtain ⟨_, _, unrounded⟩ := emitted.remainder_number isSubmit rests
  have traded := (exactly.normalizeTrades order.nodeId (emitted.affordable isSubmit)
    emitted.owned).1
  have remembered := emitted.tracksExactly_set isSubmit rests traded
  have size := remembered.size reached.valid fun orderId positive => by
    obtain ⟨resting, member, rfl⟩ := List.mem_map.mp
      ((OrderBook.restingQuantity_pos_iff reached.valid orderId).mp positive)
    exact ⟨resting.nodeId, (remainder resting member).submitter⟩
  rw [delivery.resting_submit normalizer isSubmit, RestingMap.remember,
    if_pos ((restsOnWire_iff _).mpr rests), unrounded,
    RestingMap.evict_of_size_le (size ▸ bounded)]
  exact remembered

/-- A submit whose order does not come to rest. -/
theorem TracksExactly.feed_fill (isSubmit : delivery.record.operation = .submit order)
    (notRests : ¬ (delivery.record.result.status = .queued ∨
      delivery.record.result.status = .partialFill)) :
    TracksExactly (Submitter (records ++ [delivery.record])) target.restingQuantity
      (normalizer.feed [delivery]).resting := by
  have traded := (exactly.normalizeTrades order.nodeId (emitted.affordable isSubmit)
    emitted.owned).1
  rw [delivery.resting_submit normalizer isSubmit, RestingMap.remember,
    if_neg fun onWire => notRests ((restsOnWire_iff _).mp onWire)]
  intro orderId entry
  rw [emitted.restingQuantity_submit isSubmit, if_neg fun both => notRests both.1]
  by_cases own : orderId = order.orderId
  · subst own
    have nothing := emitted.new_id_quantity isSubmit
    have nonneg := tradedAs_nonneg (emitted.affordable isSubmit).positive order.orderId
    refine (traded order.orderId entry).trans ?_
    rw [afterTrades, nothing]
    constructor
    · rintro ⟨positive, _⟩
      omega
    · rintro ⟨positive, _⟩
      omega
  · rw [submitter_append_submit isSubmit own]
    exact traded orderId entry

omit emitted in
/-- A cancel that found its order. -/
theorem TracksExactly.feed_cancel {cancelledId nodeId : String}
    (isCancel : delivery.record.operation = .cancel cancelledId nodeId)
    (successful : delivery.record.result.cancelSuccessful = true)
    (events : delivery.record.trades = [])
    (quantity : ∀ orderId, target.restingQuantity orderId =
      if cancelledId = orderId then 0 else source.restingQuantity orderId) :
    TracksExactly (Submitter (records ++ [delivery.record])) target.restingQuantity
      (normalizer.feed [delivery]).resting := by
  rw [delivery.resting_cancel normalizer isCancel, Record.rawTrades, events]
  intro orderId entry
  rw [RestingMap.forget, if_pos ⟨rfl, successful⟩, List.map_nil, RestingMap.normalizeTrades,
    InsertionMap.get_delete, Function.update_apply, quantity, submitter_append_cancel isCancel]
  by_cases own : orderId = cancelledId
  · rw [if_pos own, if_pos own.symm]
    simp
  · rw [if_neg own, if_neg fun named => own named.symm]
    exact exactly orderId entry

omit emitted in
/-- A cancel that found no order. -/
theorem TracksExactly.feed_missing {cancelledId nodeId : String}
    (isCancel : delivery.record.operation = .cancel cancelledId nodeId)
    (unsuccessful : delivery.record.result.cancelSuccessful = false)
    (events : delivery.record.trades = []) (unchanged : target = source) :
    TracksExactly (Submitter (records ++ [delivery.record])) target.restingQuantity
      (normalizer.feed [delivery]).resting := by
  rw [delivery.resting_cancel normalizer isCancel, Record.rawTrades, events]
  intro orderId entry
  rw [RestingMap.forget, if_neg (by simp [unsuccessful]), List.map_nil,
    RestingMap.normalizeTrades, unchanged, submitter_append_cancel isCancel]
  exact exactly orderId entry

/-- The delivery of a step's batch keeps the map on the book. -/
theorem TracksExactly.feed (reached : Reached (records ++ [delivery.record]) target)
    (remainder : ∀ resting ∈ target.restingOrders,
      Remainder (records ++ [delivery.record]) resting)
    (bounded : target.restingOrders.length ≤ 50000) :
    TracksExactly (Submitter (records ++ [delivery.record])) target.restingQuantity
      (normalizer.feed [delivery]).resting := by
  cases step_effect emitted.valid.wired emitted.step with
  | submit order isSubmit outcome =>
    by_cases rests : delivery.record.result.status = .queued ∨
        delivery.record.result.status = .partialFill
    · exact exactly.feed_rest emitted reached remainder bounded isSubmit rests
    · exact exactly.feed_fill emitted isSubmit rests
  | cancel nodeId side node inNodes isCancel after erased book result events =>
    refine exactly.feed_cancel isCancel (by rw [result]) (Record.trades_of_cancel events)
      fun orderId => ?_
    rw [← OrderBook.restingQuantity_erased emitted.valid inNodes erased, book]
    rfl
  | missing cancelledId nodeId isCancel notResting unchanged result events =>
    exact exactly.feed_missing isCancel (by rw [result]; rfl) (Record.trades_of_missing events)
      unchanged

end Feed

/-! ### Every delivery -/

/-- The deliveries of a whole run. -/
structure Watched (deliveries : List (Delivery Price)) (book : OrderBook Price) : Prop where
  run : BookRun (deliveries.map Delivery.record) book
  fresh : FreshIds (deliveries.map Delivery.record)
  positive : PositiveQuantities (deliveries.map Delivery.record)
  safe : SafeQuantities (deliveries.map Delivery.record)
  bounded : ∀ delivery ∈ deliveries, delivery.record.after.restingOrders.length ≤ 50000

theorem Watched.split {front back : List (Delivery Price)} {delivery : Delivery Price}
    {book : OrderBook Price} (watched : Watched (front ++ delivery :: back) book) :
    Watched front delivery.record.before ∧
      Emitted (front.map Delivery.record) delivery.record.before delivery.record
        delivery.record.after ∧
      BookRun (front.map Delivery.record ++ [delivery.record]) delivery.record.after := by
  obtain ⟨run, fresh, positive, safe, bounded⟩ := watched
  rw [List.map_append, List.map_cons] at run fresh positive safe
  obtain ⟨source, prior, steps⟩ := run.split
  rw [← List.singleton_append, ← List.append_assoc] at fresh positive safe
  cases steps with
  | cons step _ =>
    obtain ⟨rfl, rfl, _⟩ := id step
    exact ⟨⟨prior, fresh.earlier.earlier, positive.earlier.earlier, safe.earlier.earlier,
      fun other member => bounded other (List.mem_append_left _ member)⟩,
      ⟨prior, step, fresh.earlier, positive.earlier, safe.earlier⟩, prior.next step⟩

theorem Watched.tracks {deliveries : List (Delivery Price)} {book : OrderBook Price}
    (watched : Watched deliveries book) :
    TracksExactly (Submitter (deliveries.map Delivery.record)) book.restingQuantity
      (Normalizer.initial.feed deliveries).resting := by
  induction deliveries using List.reverseRecOn generalizing book with
  | nil =>
    obtain rfl : book = .empty := watched.run.of_nil
    intro orderId entry
    simp [Normalizer.feed, Normalizer.initial, OrderBook.restingQuantity_of_notMem,
      OrderBook.restingIds_eq, OrderBook.located, OrderBook.nodes, OrderBook.levels,
      OrderBook.empty, SortedMap.concat, SortedMap.empty]
  | append_singleton front delivery inductionHypothesis =>
    obtain ⟨before, emitted, after⟩ := watched.split
    obtain ⟨source, _, step⟩ : ∃ source, BookRun (front.map Delivery.record) source ∧
        (bookSystem Price).step source delivery.record book := by
      have run := watched.run
      rw [List.map_append] at run
      exact run.last
    obtain ⟨_, rfl, _⟩ := step
    rw [Normalizer.feed_append, List.map_append]
    refine (inductionHypothesis before).feed emitted ?_ ?_ ?_
    · exact bookRun_reached after emitted.fresh emitted.positive.noNegativeRemainder (.of_linear _)
    · exact bookRun_remainder after emitted.fresh emitted.positive.noNegativeRemainder
        (.of_linear _)
    · exact watched.bounded delivery (List.mem_append_right _ List.mem_cons_self)

theorem Watched.attributes {deliveries : List (Delivery Price)} {book : OrderBook Price}
    (watched : Watched deliveries book) {front back : List (Delivery Price)}
    {delivery : Delivery Price} (split : deliveries = front ++ delivery :: back) :
    ∀ trade ∈ ((Normalizer.initial.feed front).wire delivery).trades,
      Submitter (deliveries.map Delivery.record) trade.resting trade.restingNode := by
  subst split
  intro trade member
  obtain ⟨before, emitted, _⟩ := watched.split
  obtain ⟨node, trades⟩ := delivery.wire_trades (Normalizer.initial.feed front)
  rw [trades] at member
  rw [List.map_append]
  refine Submitter.later ?_ _
  cases step_effect emitted.valid.wired emitted.step with
  | submit order isSubmit outcome =>
    exact (before.tracks.normalizeTrades node (emitted.affordable isSubmit) emitted.owned).2
      trade member
  | cancel nodeId side node inNodes isCancel after erased book result events =>
    rw [Record.rawTrades, Record.trades_of_cancel events] at member
    cases member
  | missing cancelledId nodeId isCancel notResting unchanged result events =>
    rw [Record.rawTrades, Record.trades_of_missing events] at member
    cases member

namespace Sample

/-- The batches of the short run, in order. -/
def deliveries : List (Delivery ℚ) := Sample.records.mapIdx delivery

theorem deliveredRun : BookRun (deliveries.map Delivery.record) withdrawal.after := Sample.run

end Sample

/-- A normalizer that receives every batch of a run tracks the book exactly, and attributes every
trade to the node that submitted the resting order. -/
theorem normalizer_tracks_book {deliveries : List (Delivery Price)} {book : OrderBook Price}
    (run : BookRun (deliveries.map Delivery.record) book)
    (fresh : FreshIds (deliveries.map Delivery.record))
    (positive : PositiveQuantities (deliveries.map Delivery.record))
    (safe : SafeQuantities (deliveries.map Delivery.record))
    (bounded : ∀ delivery ∈ deliveries, delivery.record.after.restingOrders.length ≤ 50000) :
    (∀ orderId entry, (Normalizer.initial.feed deliveries).resting.get orderId = some entry ↔
      ∃ resting ∈ book.restingOrders, resting.orderId = orderId ∧
        entry.remaining = resting.quantity ∧
        Submitter (deliveries.map Delivery.record) orderId entry.node) ∧
    ∀ front delivery back, deliveries = front ++ delivery :: back →
      ∀ trade ∈ ((Normalizer.initial.feed front).wire delivery).trades,
        Submitter (deliveries.map Delivery.record) trade.resting trade.restingNode ∧
          ((∀ order ∈ submitted (deliveries.map Delivery.record), order.nodeId ≠ "?") →
            trade.restingNode ≠ "?") := by
  have watched : Watched deliveries book := ⟨run, fresh, positive, safe, bounded⟩
  have valid := (bookRun_reached run fresh positive.noNegativeRemainder (.of_linear _)).valid
  constructor
  · intro orderId entry
    rw [watched.tracks orderId entry, OrderBook.restingQuantity_pos_iff valid]
    constructor
    · rintro ⟨rests, remaining, submitter⟩
      obtain ⟨resting, member, rfl⟩ := List.mem_map.mp rests
      rw [OrderBook.restingQuantity_of_mem valid member] at remaining
      exact ⟨resting, member, rfl, remaining, submitter⟩
    · rintro ⟨resting, member, rfl, remaining, submitter⟩
      rw [OrderBook.restingQuantity_of_mem valid member]
      exact ⟨List.mem_map_of_mem member, remaining, submitter⟩
  · intro front delivery back split trade member
    have attributed := watched.attributes split trade member
    refine ⟨attributed, fun named unknown => ?_⟩
    obtain ⟨order, inSubmitted, _, isNode⟩ := attributed
    exact named order inSubmitted (isNode.trans unknown)

theorem normalizer_tracks_book_sample :
    (Normalizer.initial.feed Sample.deliveries).resting.get "ORD-2" = some ⟨"mom-1", 2⟩ :=
  ((normalizer_tracks_book Sample.deliveredRun Sample.freshIds Sample.positiveQuantities
    (by decide) (by decide)).1 "ORD-2" ⟨"mom-1", 2⟩).mpr
    ⟨⟨.bid, .limit, 100, 2, "ORD-2", "mom-1"⟩, by decide, rfl, rfl,
      ⟨.bid, .limit, 100, 7, "ORD-2", "mom-1"⟩, by decide, rfl, rfl⟩

end MarketSandbox
