/-
This file proves that attribution stays sound when batches are missed. Whatever
part of a run's batches reaches the normalizer, an entry names the true
submitter and holds at least what truly remains, because a missed batch only
lowers the truth; so an entry is forgotten by itself only when nothing remains.
An id whose resting batch was seen therefore stays until its order is gone or
the size limit evicts it.
-/

import MarketSandbox.Gateway.Emission

namespace MarketSandbox

variable {Price : Type} [PriceArithmetic Price]

/-- The batch that says an order has come to rest. -/
def Delivery.Rests (delivery : Delivery Price) (orderId : String) : Prop :=
  ∃ order, delivery.record.operation = .submit order ∧ order.orderId = orderId ∧
    (delivery.record.result.status = .queued ∨ delivery.record.result.status = .partialFill)

/-- The size limit has deleted an id during a sequence of deliveries. -/
def Evicted (deliveries : List (Delivery Price)) (orderId : String) : Prop :=
  ∃ front delivery back, deliveries = front ++ delivery :: back ∧
    (Normalizer.initial.feed front).Evicts delivery.raw orderId

theorem Evicted.later {front : List (Delivery Price)} {orderId : String}
    (evicted : Evicted front orderId) (back : List (Delivery Price)) :
    Evicted (front ++ back) orderId := by
  obtain ⟨before, delivery, after, rfl, evicts⟩ := evicted
  exact ⟨before, delivery, after ++ back, by simp, evicts⟩

/-! ### Deleting entries -/

theorem RestingMap.get_evict (resting : RestingMap) (orderId : String) :
    (RestingMap.evict resting).get orderId =
      if RestingMap.evicted resting = some orderId then none else resting.get orderId := by
  unfold RestingMap.evict
  cases RestingMap.evicted resting with
  | none => rfl
  | some first =>
    simp only [InsertionMap.get_delete, Function.update_apply, Option.some_inj]
    by_cases same : orderId = first
    · rw [if_pos same, if_pos same.symm]
    · rw [if_neg same, if_neg fun named => same named.symm]

theorem OverEstimates.mono {owner later : String → String → Prop} {truth less : String → Int}
    {resting : RestingMap} (above : OverEstimates owner truth resting)
    (owners : ∀ orderId node, owner orderId node → later orderId node)
    (lower : ∀ orderId node, owner orderId node → less orderId ≤ truth orderId) :
    OverEstimates later less resting := by
  intro orderId entry found
  obtain ⟨isOwner, atLeast, safe⟩ := above orderId entry found
  exact ⟨owners _ _ isOwner, (lower _ _ isOwner).trans atLeast, safe⟩

theorem OverEstimates.subset {owner : String → String → Prop} {truth : String → Int}
    {resting fewer : RestingMap} (above : OverEstimates owner truth resting)
    (subset : ∀ orderId entry, fewer.get orderId = some entry →
      resting.get orderId = some entry) : OverEstimates owner truth fewer :=
  fun orderId entry found => above orderId entry (subset orderId entry found)

/-! ### The invariant -/

/-- What holds of a normalizer that has received some of the batches of a run. -/
structure Sound (records : List (Record Price)) (book : OrderBook Price)
    (seen : List (Delivery Price)) : Prop where
  above : OverEstimates (Submitter records) book.restingQuantity
    (Normalizer.initial.feed seen).resting
  held : ∀ orderId, (∃ delivery ∈ seen, delivery.Rests orderId) → ¬ Evicted seen orderId →
    0 < book.restingQuantity orderId → ((Normalizer.initial.feed seen).resting.get orderId).isSome

variable {records : List (Record Price)} {source target : OrderBook Price}

/-- No step raises what rests under an id that has been submitted. -/
theorem Emitted.restingQuantity_le {record : Record Price}
    (emitted : Emitted records source record target) {orderId node : String}
    (submitter : Submitter records orderId node) :
    target.restingQuantity orderId ≤ source.restingQuantity orderId := by
  cases step_effect emitted.valid.wired emitted.step with
  | submit order isSubmit outcome =>
    have nonneg := tradedAs_nonneg (emitted.affordable isSubmit).positive orderId
    have other : order.orderId ≠ orderId := fun same =>
      emitted.new_id isSubmit node (same ▸ submitter)
    rw [emitted.restingQuantity_submit isSubmit, if_neg fun both => other both.2, afterTrades]
    omega
  | cancel nodeId side node inNodes isCancel after erased book result events =>
    have nonneg := OrderBook.restingQuantity_nonneg emitted.valid orderId
    have quantity : target.restingQuantity orderId =
        if node.order.orderId = orderId then 0 else source.restingQuantity orderId := by
      rw [← OrderBook.restingQuantity_erased emitted.valid inNodes erased, book]
      rfl
    rw [quantity]
    split_ifs
    · exact nonneg
    · exact le_rfl
  | missing cancelledId nodeId isCancel notResting unchanged result events =>
    rw [unchanged]

/-- The id of an order whose resting batch was seen has been submitted. -/
theorem Delivery.Rests.submitter {seen : List (Delivery Price)} {delivery : Delivery Price}
    {orderId : String} (rests : delivery.Rests orderId) (member : delivery ∈ seen)
    (known : ∀ record ∈ seen.map Delivery.record, record ∈ records) :
    ∃ node, Submitter records orderId node := by
  obtain ⟨order, isSubmit, isId, _⟩ := rests
  have inRecords := known delivery.record (List.mem_map_of_mem member)
  refine ⟨order.nodeId, order, List.mem_filterMap.mpr ⟨_, inRecords, ?_⟩, isId, rfl⟩
  rw [isSubmit]
  rfl

/-- A batch that is missed. -/
theorem Sound.missed {record : Record Price} {seen : List (Delivery Price)}
    (sound : Sound records source seen) (emitted : Emitted records source record target)
    (known : ∀ record ∈ seen.map Delivery.record, record ∈ records) :
    Sound (records ++ [record]) target seen where
  above := sound.above.mono (fun _ _ submitter => submitter.later [record])
    fun _ _ submitter => emitted.restingQuantity_le submitter
  held orderId rested kept remains := by
    obtain ⟨delivery, member, rests⟩ := id rested
    obtain ⟨node, submitter⟩ := rests.submitter member known
    exact sound.held orderId rested kept (remains.trans_le (emitted.restingQuantity_le submitter))

/-- A batch that is received and says of no order that it rests. -/
theorem Sound.without_rest {delivery : Delivery Price} {seen : List (Delivery Price)}
    (sound : Sound records source seen)
    (emitted : Emitted records source delivery.record target)
    (known : ∀ record ∈ seen.map Delivery.record, record ∈ records)
    (none : ∀ orderId, ¬ delivery.Rests orderId)
    (above : OverEstimates (Submitter (records ++ [delivery.record])) target.restingQuantity
      (Normalizer.initial.feed (seen ++ [delivery])).resting)
    (keeps : ∀ orderId, 0 < target.restingQuantity orderId →
      ((Normalizer.initial.feed seen).resting.get orderId).isSome →
      ((Normalizer.initial.feed (seen ++ [delivery])).resting.get orderId).isSome) :
    Sound (records ++ [delivery.record]) target (seen ++ [delivery]) where
  above := above
  held orderId rested kept remains := by
    refine keeps orderId remains ((sound.missed emitted known).held orderId ?_ ?_ remains)
    · obtain ⟨other, member, rests⟩ := rested
      rcases List.mem_append.mp member with old | isLast
      · exact ⟨other, old, rests⟩
      · exact absurd (List.mem_singleton.mp isLast ▸ rests) (none orderId)
    · exact fun evicted => kept (evicted.later [delivery])

section Received

variable {delivery : Delivery Price} {seen : List (Delivery Price)}
  (sound : Sound records source seen) (emitted : Emitted records source delivery.record target)
  (known : ∀ record ∈ seen.map Delivery.record, record ∈ records) {order : Order Price}
include sound emitted known

omit sound known in
/-- Remembering an order that has come to rest, with what remains of it. -/
theorem Emitted.overEstimates_set (isSubmit : delivery.record.operation = .submit order)
    (rests : delivery.record.result.status = .queued ∨
      delivery.record.result.status = .partialFill) {resting : RestingMap}
    (above : OverEstimates (Submitter records)
      (afterTrades source.restingQuantity delivery.record.trades) resting) :
    OverEstimates (Submitter (records ++ [delivery.record])) target.restingQuantity
      (resting.set order.orderId
        ⟨order.nodeId, order.quantity - delivery.record.result.filledQuantity⟩) := by
  obtain ⟨_, safe, _⟩ := emitted.remainder_number isSubmit rests
  intro orderId entry found
  rw [InsertionMap.get_set, Function.update_apply] at found
  rw [emitted.restingQuantity_submit isSubmit]
  by_cases own : orderId = order.orderId
  · subst own
    rw [if_pos rfl] at found
    obtain rfl := Option.some.inj found
    rw [if_pos ⟨rests, rfl⟩]
    exact ⟨(emitted.new_id_submitter isSubmit _).mpr rfl, le_rfl, safe⟩
  · rw [if_neg own] at found
    rw [if_neg fun both => own both.2.symm]
    obtain ⟨submitter, atLeast⟩ := above orderId entry found
    exact ⟨submitter.later [delivery.record], atLeast⟩

omit sound emitted known in
/-- The batch of a submit says of no other order that it rests. -/
theorem Delivery.rests_earlier (isSubmit : delivery.record.operation = .submit order)
    {orderId : String} (other : orderId ≠ order.orderId)
    (rested : ∃ earlier ∈ seen ++ [delivery], earlier.Rests orderId) :
    ∃ earlier ∈ seen, earlier.Rests orderId := by
  obtain ⟨earlier, member, rests⟩ := rested
  rcases List.mem_append.mp member with old | isLast
  · exact ⟨earlier, old, rests⟩
  · obtain ⟨otherOrder, isOther, isId, _⟩ := rests
    rw [List.mem_singleton.mp isLast, isSubmit] at isOther
    rw [← Operation.submit.inj isOther] at isId
    exact absurd isId.symm other

omit known in
/-- A submit whose order comes to rest. -/
theorem Sound.received_rest (isSubmit : delivery.record.operation = .submit order)
    (rests : delivery.record.result.status = .queued ∨
      delivery.record.result.status = .partialFill) :
    Sound (records ++ [delivery.record]) target (seen ++ [delivery]) := by
  have affordable := emitted.affordable isSubmit
  obtain ⟨above, keeps, _⟩ := sound.above.normalizeTrades order.nodeId affordable
  have map := delivery.resting_submit (Normalizer.initial.feed seen) isSubmit
  have evicts := delivery.evicts_submit (Normalizer.initial.feed seen) isSubmit
  obtain ⟨_, _, unrounded⟩ := emitted.remainder_number isSubmit rests
  have onWire := (restsOnWire_iff delivery.record.result.status).mpr rests
  rw [unrounded] at map evicts
  rw [← Normalizer.feed_append, RestingMap.remember, if_pos onWire] at map
  have remembered := emitted.overEstimates_set isSubmit rests above
  constructor
  · rw [map]
    refine remembered.subset fun orderId entry found => ?_
    rw [RestingMap.get_evict] at found
    split_ifs at found
    exact found
  · intro orderId rested kept remains
    have earlier : ¬ Evicted seen orderId := fun evicted => kept (evicted.later [delivery])
    have notEvicted : RestingMap.evicted ((RestingMap.normalizeTrades order.nodeId
        delivery.record.rawTrades (Normalizer.initial.feed seen).resting).2.set order.orderId
          ⟨order.nodeId, order.quantity - delivery.record.result.filledQuantity⟩) ≠
            some orderId := fun isEvicted =>
      kept ⟨seen, delivery, [], rfl, (evicts orderId).mpr ⟨onWire, isEvicted⟩⟩
    rw [map, RestingMap.get_evict, if_neg notEvicted, InsertionMap.get_set,
      Function.update_apply]
    by_cases own : orderId = order.orderId
    · rw [if_pos own]
      rfl
    · rw [if_neg own]
      rw [emitted.restingQuantity_submit isSubmit, if_neg fun both => own both.2.symm] at remains
      refine keeps orderId remains
        (sound.held orderId (Delivery.rests_earlier isSubmit own rested) earlier ?_)
      have nonneg := tradedAs_nonneg affordable.positive orderId
      rw [afterTrades] at remains
      omega

/-- A submit whose order does not come to rest. -/
theorem Sound.received_fill (isSubmit : delivery.record.operation = .submit order)
    (notRests : ¬ (delivery.record.result.status = .queued ∨
      delivery.record.result.status = .partialFill)) :
    Sound (records ++ [delivery.record]) target (seen ++ [delivery]) := by
  obtain ⟨above, keeps, _⟩ :=
    sound.above.normalizeTrades order.nodeId (emitted.affordable isSubmit)
  have map := delivery.resting_submit (Normalizer.initial.feed seen) isSubmit
  rw [← Normalizer.feed_append, RestingMap.remember,
    if_neg fun onWire => notRests ((restsOnWire_iff _).mp onWire)] at map
  have quantity : ∀ orderId, target.restingQuantity orderId =
      afterTrades source.restingQuantity delivery.record.trades orderId := by
    intro orderId
    rw [emitted.restingQuantity_submit isSubmit, if_neg fun both => notRests both.1]
  refine sound.without_rest emitted known ?_ ?_ ?_
  · rintro orderId ⟨_, _, _, otherStatus⟩
    exact notRests otherStatus
  · rw [map]
    exact above.mono (fun _ _ submitter => submitter.later [delivery.record])
      fun orderId _ _ => (quantity orderId).le
  · intro orderId remains held
    rw [quantity] at remains
    rw [map]
    exact keeps orderId remains held

/-- A cancel that found its order, of which nothing remains. -/
theorem Sound.received_cancel {orderId nodeId : String}
    (isCancel : delivery.record.operation = .cancel orderId nodeId)
    (successful : delivery.record.result.cancelSuccessful = true)
    (events : delivery.record.trades = [])
    (gone : target.restingQuantity orderId = 0) :
    Sound (records ++ [delivery.record]) target (seen ++ [delivery]) := by
  have map := delivery.resting_cancel (Normalizer.initial.feed seen) isCancel
  have missed := sound.missed emitted known
  rw [← Normalizer.feed_append, Record.rawTrades, events, List.map_nil,
    RestingMap.normalizeTrades, RestingMap.forget, if_pos ⟨rfl, successful⟩] at map
  refine sound.without_rest emitted known ?_ ?_ ?_
  · rintro orderId ⟨_, isOther, _⟩
    rw [isCancel] at isOther
    cases isOther
  · rw [map]
    refine missed.above.subset fun orderId entry found => ?_
    rw [InsertionMap.get_delete, Function.update_apply] at found
    split_ifs at found
    exact found
  · intro orderId remains held
    rw [map, InsertionMap.get_delete, Function.update_apply]
    split_ifs with same
    · rw [same, gone] at remains
      exact absurd remains (lt_irrefl 0)
    · exact held

/-- A cancel that found no order. -/
theorem Sound.received_missing {orderId nodeId : String}
    (isCancel : delivery.record.operation = .cancel orderId nodeId)
    (unsuccessful : delivery.record.result.cancelSuccessful = false)
    (events : delivery.record.trades = []) :
    Sound (records ++ [delivery.record]) target (seen ++ [delivery]) := by
  have map := delivery.resting_cancel (Normalizer.initial.feed seen) isCancel
  rw [← Normalizer.feed_append, Record.rawTrades, events, List.map_nil,
    RestingMap.normalizeTrades, RestingMap.forget,
    if_neg (by simp [unsuccessful])] at map
  refine sound.without_rest emitted known ?_ ?_ ?_
  · rintro orderId ⟨_, isOther, _⟩
    rw [isCancel] at isOther
    cases isOther
  · rw [map]
    exact (sound.missed emitted known).above
  · intro orderId _ held
    rwa [map]

/-- A batch that is received. -/
theorem Sound.received : Sound (records ++ [delivery.record]) target (seen ++ [delivery]) := by
  cases step_effect emitted.valid.wired emitted.step with
  | submit order isSubmit outcome =>
    by_cases rests : delivery.record.result.status = .queued ∨
        delivery.record.result.status = .partialFill
    · exact sound.received_rest emitted isSubmit rests
    · exact sound.received_fill emitted known isSubmit rests
  | cancel nodeId side node inNodes isCancel after erased book result events =>
    have quantity := OrderBook.restingQuantity_erased emitted.valid inNodes erased
      node.order.orderId
    rw [if_pos rfl] at quantity
    refine sound.received_cancel emitted known isCancel (by rw [result])
      (Record.trades_of_cancel events) ?_
    rw [← quantity, book]
    rfl
  | missing cancelledId nodeId isCancel notResting unchanged result events =>
    exact sound.received_missing emitted known isCancel (by rw [result]; rfl)
      (Record.trades_of_missing events)

end Received

/-! ### Every run and every selection of batches -/

theorem bookRun_sound {records : List (Record Price)} {book : OrderBook Price}
    (run : BookRun records book) (fresh : FreshIds records) (positive : PositiveQuantities records)
    (safe : SafeQuantities records) {seen : List (Delivery Price)}
    (selected : (seen.map Delivery.record).Sublist records) : Sound records book seen := by
  induction run generalizing seen with
  | start initial =>
    obtain rfl := List.map_eq_nil_iff.mp (List.sublist_nil.mp selected)
    refine ⟨fun orderId entry found => ?_, fun orderId rested => ?_⟩
    · cases found
    · obtain ⟨_, member, _⟩ := rested
      cases member
  | @next records source target record before step inductionHypothesis =>
    have emitted : Emitted records source record target := ⟨before, step, fresh, positive, safe⟩
    have earlier := @inductionHypothesis fresh.earlier positive.earlier safe.earlier
    rcases List.eq_nil_or_concat seen with rfl | ⟨front, delivery, rfl⟩
    · have nothing : (([] : List (Delivery Price)).map Delivery.record).Sublist records :=
        List.nil_sublist records
      exact (earlier nothing).missed emitted fun _ member => nomatch member
    · rw [List.concat_eq_append] at selected ⊢
      obtain ⟨left, right, split, inEarlier, inLast⟩ := List.sublist_append_iff.mp selected
      rcases List.sublist_singleton.mp inLast with rfl | rfl
      · rw [List.append_nil] at split
        exact (earlier (split ▸ inEarlier)).missed emitted fun _ member =>
          inEarlier.subset (split ▸ member)
      · rw [List.map_append, List.map_singleton] at split
        obtain ⟨rfl, isLast⟩ := List.append_inj' split rfl
        obtain rfl := List.singleton_inj.mp isLast
        exact (earlier inEarlier).received emitted fun _ member => inEarlier.subset member

/-- Whatever part of a run's batches reaches a normalizer, its entries name the true submitters
and hold at least what truly remains; a trade is attributed to `"?"` or to the true submitter, and
to the latter when the order's resting batch was seen and its entry was not evicted. -/
theorem attribution_sound_with_gaps {records : List (Record Price)} {book : OrderBook Price}
    (run : BookRun records book) (fresh : FreshIds records) (positive : PositiveQuantities records)
    (safe : SafeQuantities records) (seen : List (Delivery Price))
    (selected : (seen.map Delivery.record).Sublist records) :
    (∀ orderId entry, (Normalizer.initial.feed seen).resting.get orderId = some entry →
      Submitter records orderId entry.node ∧ book.restingQuantity orderId ≤ entry.remaining) ∧
    ∀ front delivery back, seen = front ++ delivery :: back →
      ∀ trade ∈ ((Normalizer.initial.feed front).wire delivery).trades,
        (trade.restingNode = "?" ∨ Submitter records trade.resting trade.restingNode) ∧
        ((∃ earlier ∈ front, earlier.Rests trade.resting) → ¬ Evicted front trade.resting →
          Submitter records trade.resting trade.restingNode) := by
  constructor
  · intro orderId entry found
    obtain ⟨submitter, atLeast, _⟩ := (bookRun_sound run fresh positive safe selected).above
      orderId entry found
    exact ⟨submitter, atLeast⟩
  · rintro front delivery back rfl trade member
    rw [List.map_append, List.map_cons] at selected
    obtain ⟨before, rest, rfl, inBefore, inRest⟩ := List.append_sublist_iff.mp selected
    obtain ⟨upTo, later, rfl, inUpTo, _⟩ := List.cons_sublist_iff.mp inRest
    obtain ⟨between, after, rfl⟩ := List.append_of_mem inUpTo
    have whole : before ++ (between ++ delivery.record :: after ++ later) =
        (before ++ between) ++ [delivery.record] ++ (after ++ later) := by simp
    rw [whole] at run fresh positive safe ⊢
    obtain ⟨_, prefixRun, _⟩ := run.split
    obtain ⟨source, prior, step⟩ := prefixRun.last
    have emitted : Emitted (before ++ between) source delivery.record _ :=
      ⟨prior, step, fresh.earlier, positive.earlier, safe.earlier⟩
    have sound := bookRun_sound prior fresh.earlier.earlier positive.earlier.earlier
      safe.earlier.earlier (inBefore.trans (List.sublist_append_left _ _))
    obtain ⟨node, trades⟩ := delivery.wire_trades (Normalizer.initial.feed front)
    rw [trades] at member
    have older : ∀ nodeId, Submitter (before ++ between) trade.resting nodeId →
        Submitter ((before ++ between) ++ [delivery.record] ++ (after ++ later)) trade.resting
          nodeId := fun _ submitter => (submitter.later _).later _
    cases step_effect emitted.valid.wired emitted.step with
    | submit order isSubmit outcome =>
      have affordable := emitted.affordable isSubmit
      obtain ⟨_, _, attributed⟩ := sound.above.normalizeTrades node affordable
      obtain ⟨unknownOr, whenHeld⟩ := attributed trade member
      refine ⟨unknownOr.imp_right (older _), fun rested kept => older _ (whenHeld ?_)⟩
      obtain ⟨executed, inTrades, sameId⟩ := normalizeTrades_named node _ _ trade member
      have named := tradedAs_pos affordable.positive inTrades
      have covered := affordable.covered executed.restingOrderId
      rw [sameId] at named covered
      exact sound.held trade.resting rested kept (named.trans_le covered)
    | cancel nodeId side node inNodes isCancel after erased book result events =>
      rw [Record.rawTrades, Record.trades_of_cancel events] at member
      cases member
    | missing cancelledId nodeId isCancel notResting unchanged result events =>
      rw [Record.rawTrades, Record.trades_of_missing events] at member
      cases member

/-- The normalizer has seen only that the second ask rests. -/
theorem attribution_sound_with_gaps_sample : ∃ entry,
    (Normalizer.initial.feed [Sample.delivery 1 Sample.secondAsk]).resting.get "ORD-1" =
      some entry ∧
    Submitter Sample.records "ORD-1" entry.node ∧
      Sample.withdrawal.after.restingQuantity "ORD-1" ≤ entry.remaining :=
  ⟨⟨"mm-2", 5⟩, by decide, (attribution_sound_with_gaps Sample.run Sample.freshIds
    Sample.positiveQuantities (by decide) [Sample.delivery 1 Sample.secondAsk] (by
      exact .cons _ (.cons_cons _ (List.nil_sublist _)))).1 "ORD-1" ⟨"mm-2", 5⟩ (by decide)⟩

end MarketSandbox
