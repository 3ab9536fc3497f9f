/-
This file collects what the gateway may rely on about a batch of a run of the
exchange: its trades are positive and take no more than rests under the ids
they name, an order's remainder is positive, every quantity is held exactly by
a number, and an id has one submitter.
-/

import MarketSandbox.Exchange.Submitters
import MarketSandbox.Gateway.Attribution

namespace MarketSandbox

variable {Price : Type} [PriceArithmetic Price]

/-- Every submitted quantity is held exactly by a number. -/
def SafeQuantities (records : List (Record Price)) : Prop :=
  ∀ order ∈ submitted records, order.quantity < 2 ^ 53

instance (records : List (Record Price)) : Decidable (SafeQuantities records) :=
  inferInstanceAs (Decidable (∀ order ∈ submitted records, order.quantity < 2 ^ 53))

theorem SafeQuantities.earlier {front back : List (Record Price)}
    (safe : SafeQuantities (front ++ back)) : SafeQuantities front := by
  intro order member
  refine safe order ?_
  rw [submitted_append]
  exact List.mem_append_left _ member

/-! ### What the exchange promises about a batch -/

/-- A reached book whose next step is known, with all that the gateway relies on. -/
structure Emitted (records : List (Record Price)) (source : OrderBook Price)
    (record : Record Price) (target : OrderBook Price) : Prop where
  run : BookRun records source
  step : (bookSystem Price).step source record target
  fresh : FreshIds (records ++ [record])
  positive : PositiveQuantities (records ++ [record])
  safe : SafeQuantities (records ++ [record])

namespace Emitted

variable {records : List (Record Price)} {source target : OrderBook Price}
  {record : Record Price}

theorem reached (emitted : Emitted records source record target) : Reached records source :=
  bookRun_reached emitted.run emitted.fresh.earlier emitted.positive.earlier.noNegativeRemainder
    (.of_linear _)

theorem valid (emitted : Emitted records source record target) : source.Valid :=
  emitted.reached.valid

theorem remainder (emitted : Emitted records source record target) :
    ∀ resting ∈ source.restingOrders, Remainder records resting :=
  bookRun_remainder emitted.run emitted.fresh.earlier emitted.positive.earlier.noNegativeRemainder
    (.of_linear _)

theorem restingQuantity_lt (emitted : Emitted records source record target) (orderId : String) :
    source.restingQuantity orderId < 2 ^ 53 :=
  bookRun_restingQuantity_lt emitted.run emitted.fresh.earlier
    emitted.positive.earlier.noNegativeRemainder (.of_linear _) (by decide) emitted.safe.earlier
    orderId

/-- Whatever rests has a submitter. -/
theorem owned (emitted : Emitted records source record target) (orderId : String)
    (rests : 0 < source.restingQuantity orderId) : ∃ node, Submitter records orderId node := by
  obtain ⟨resting, member, rfl⟩ := List.mem_map.mp
    ((OrderBook.restingQuantity_pos_iff emitted.valid orderId).mp rests)
  exact ⟨resting.nodeId, (emitted.remainder resting member).submitter⟩

variable {order : Order Price}

theorem submit_effect (emitted : Emitted records source record target)
    (isSubmit : record.operation = .submit order) : SubmitEffect source record target order :=
  MarketSandbox.submit_effect emitted.valid.wired emitted.step isSubmit

theorem affordable (emitted : Emitted records source record target)
    (isSubmit : record.operation = .submit order) :
    Affordable source.restingQuantity record.trades where
  positive := (emitted.submit_effect isSubmit).trades_positive emitted.valid
  covered := (emitted.submit_effect isSubmit).covered emitted.valid
  safe := emitted.restingQuantity_lt

/-- A new id has no submitter yet. -/
theorem new_id (emitted : Emitted records source record target)
    (isSubmit : record.operation = .submit order) (node : String) :
    ¬ Submitter records order.orderId node := by
  rintro ⟨other, member, isId, _⟩
  exact emitted.fresh.last isSubmit (isId ▸ List.mem_map_of_mem member)

theorem new_id_quantity (emitted : Emitted records source record target)
    (isSubmit : record.operation = .submit order) :
    source.restingQuantity order.orderId = 0 := by
  refine le_antisymm (not_lt.mp fun rests => ?_)
    (OrderBook.restingQuantity_nonneg emitted.valid _)
  obtain ⟨node, submitter⟩ := emitted.owned _ rests
  exact emitted.new_id isSubmit node submitter

theorem new_id_submitter (emitted : Emitted records source record target)
    (isSubmit : record.operation = .submit order) (node : String) :
    Submitter (records ++ [record]) order.orderId node ↔ node = order.nodeId := by
  constructor
  · rintro ⟨other, member, isId, rfl⟩
    rcases mem_submitted_append.mp member with old | isLast
    · exact absurd ⟨other, old, isId, rfl⟩ (emitted.new_id isSubmit other.nodeId)
    · rw [isSubmit] at isLast
      rw [Operation.submit.inj isLast]
  · rintro rfl
    exact ⟨order, mem_submitted_append.mpr (.inr isSubmit), rfl, rfl⟩

/-- What rests under the ids after a submit: what the trades leave, and the remainder. -/
theorem restingQuantity_submit (emitted : Emitted records source record target)
    (isSubmit : record.operation = .submit order) (orderId : String) :
    target.restingQuantity orderId =
      if (record.result.status = .queued ∨ record.result.status = .partialFill) ∧
          order.orderId = orderId then
        order.quantity - record.result.filledQuantity
      else afterTrades source.restingQuantity record.trades orderId := by
  have quantity := (emitted.submit_effect isSubmit).restingQuantity emitted.valid orderId
  rw [quantity, afterTrades]
  split_ifs with both
  · have nothing := emitted.new_id_quantity isSubmit
    have named := (emitted.affordable isSubmit).covered order.orderId
    have nonneg := tradedAs_nonneg (emitted.affordable isSubmit).positive order.orderId
    rw [← both.2]
    omega
  · omega

/-- The remainder that rests is positive and reaches the gateway unrounded. -/
theorem remainder_number (emitted : Emitted records source record target)
    (isSubmit : record.operation = .submit order)
    (rests : record.result.status = .queued ∨ record.result.status = .partialFill) :
    0 < order.quantity - record.result.filledQuantity ∧
      order.quantity - record.result.filledQuantity < 2 ^ 53 ∧
      SafeInteger.sub (SafeInteger.toNumber order.quantity)
        (SafeInteger.toNumber record.result.filledQuantity) =
          order.quantity - record.result.filledQuantity := by
  have effect := emitted.submit_effect isSubmit
  have inSubmitted : order ∈ submitted (records ++ [record]) :=
    mem_submitted_append.mpr (.inr isSubmit)
  have positive := emitted.positive order inSubmitted
  have safe := emitted.safe order inSubmitted
  have nonneg := OrderBook.filledBy_nonneg emitted.valid (BookSide.ofOrder order.side) order
  have less := OrderBook.remainder_of_nonneg source (BookSide.ofOrder order.side) order positive.le
    (effect.rests_iff.mpr rests)
  rw [← effect.filled] at nonneg less
  rw [SafeInteger.toNumber_of_nonneg positive.le safe,
    SafeInteger.toNumber_of_nonneg nonneg (less.trans safe), SafeInteger.sub,
    SafeInteger.toNumber_of_nonneg (by omega) (by omega)]
  exact ⟨by omega, by omega, rfl⟩

end Emitted

end MarketSandbox
