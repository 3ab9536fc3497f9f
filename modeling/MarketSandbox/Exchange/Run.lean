/-
This file models runs of the order book: any sequence of submits and cancels
from the empty book, each step recorded with the book before and after it, its
result and its events. It states once what a step can do to a valid book, and
proves that every book reached with fresh order ids is valid as long as an order
comes to rest only where its price compares with those on its side. That is also
exactly when the order index and the two price maps describe the same orders.
-/

import MarketSandbox.Exchange.Invariant
import MarketSandbox.Library.Transition
import Mathlib.Algebra.Field.Rat
import Mathlib.Algebra.Order.Ring.Unbundled.Rat

namespace MarketSandbox

variable {Price : Type}

/-! ### Operations and records -/

/-- The payload of a queue message: an order to submit, or an id to cancel and the node
that asks for it. -/
inductive Operation (Price : Type)
  | submit (order : Order Price)
  | cancel (orderId nodeId : String)
  deriving DecidableEq

/-- One step of a run: the operation and its timestamp, the book before and after it, its
result, and its events. -/
structure Record (Price : Type) [LT Price] where
  operation : Operation Price
  timestamp : Nat
  before : OrderBook Price
  result : EngineResult Price
  events : List (MarketEvent Price)
  after : OrderBook Price

/-- The order an operation submits. -/
def Operation.submitted? : Operation Price → Option (Order Price)
  | .submit order => some order
  | .cancel _ _ => none

section Records

variable [LT Price]

/-- The orders submitted so far. -/
def submitted (records : List (Record Price)) : List (Order Price) :=
  records.filterMap fun record => record.operation.submitted?

/-- Every submit has an id that no earlier submit had. -/
def FreshIds (records : List (Record Price)) : Prop :=
  ((submitted records).map Order.orderId).Nodup

/-- Every submitted order has a positive quantity. -/
def PositiveQuantities (records : List (Record Price)) : Prop :=
  ∀ order ∈ submitted records, 0 < order.quantity

/-- No order that may rest has a negative quantity. -/
def NoNegativeRemainder (records : List (Record Price)) : Prop :=
  ∀ order ∈ submitted records, order.orderType ≠ .market → 0 ≤ order.quantity

instance (records : List (Record Price)) : Decidable (FreshIds records) :=
  inferInstanceAs (Decidable (List.Nodup _))

instance (records : List (Record Price)) : Decidable (PositiveQuantities records) :=
  inferInstanceAs (Decidable (∀ order ∈ submitted records, 0 < order.quantity))

/-- The trades of a record. -/
def Record.trades (record : Record Price) : List (Trade Price) :=
  record.events.filterMap MarketEvent.trade?

theorem submitted_append (front back : List (Record Price)) :
    submitted (front ++ back) = submitted front ++ submitted back :=
  List.filterMap_append

theorem FreshIds.earlier {front back : List (Record Price)} (fresh : FreshIds (front ++ back)) :
    FreshIds front := by
  rw [FreshIds, submitted_append, List.map_append] at fresh
  exact fresh.of_append_left

/-- The order of the last submit has an id that no earlier submit had. -/
theorem FreshIds.last {records : List (Record Price)} {record : Record Price}
    (fresh : FreshIds (records ++ [record])) {order : Order Price}
    (isSubmit : record.operation = .submit order) :
    order.orderId ∉ (submitted records).map Order.orderId := by
  have last : submitted [record] = [order] := by
    simp [submitted, isSubmit, Operation.submitted?]
  rw [FreshIds, submitted_append, last, List.map_append] at fresh
  exact fun member => (List.disjoint_of_nodup_append fresh) member List.mem_cons_self

theorem mem_submitted_append {records : List (Record Price)} {record : Record Price}
    {order : Order Price} :
    order ∈ submitted (records ++ [record]) ↔
      order ∈ submitted records ∨ record.operation = .submit order := by
  rw [submitted_append, List.mem_append]
  refine or_congr_right ?_
  cases operation : record.operation with
  | submit other => simp [submitted, operation, Operation.submitted?, eq_comm]
  | cancel orderId nodeId => simp [submitted, operation, Operation.submitted?]

theorem NoNegativeRemainder.earlier {front back : List (Record Price)}
    (sound : NoNegativeRemainder (front ++ back)) : NoNegativeRemainder front := by
  intro order member
  refine sound order ?_
  rw [submitted_append]
  exact List.mem_append_left _ member

theorem PositiveQuantities.earlier {front back : List (Record Price)}
    (positive : PositiveQuantities (front ++ back)) : PositiveQuantities front := by
  intro order member
  refine positive order ?_
  rw [submitted_append]
  exact List.mem_append_left _ member

theorem PositiveQuantities.noNegativeRemainder {records : List (Record Price)}
    (positive : PositiveQuantities records) : NoNegativeRemainder records :=
  fun order member _ => (positive order member).le

end Records

section Steps

variable [PriceOperations Price]

/-- Perform an operation; `none` is undefined behaviour. -/
def OrderBook.perform (book : OrderBook Price) (timestamp : Nat) :
    Operation Price → Option (OrderBook.Outcome Price)
  | .submit order => some (book.submit order timestamp)
  | .cancel orderId _ => book.cancel orderId timestamp

/-- The order book as a transition system. -/
def bookSystem (Price : Type) [PriceOperations Price] :
    Transition.System (OrderBook Price) (Record Price) where
  initial book := book = .empty
  step source record target := record.before = source ∧ record.after = target ∧
    source.perform record.timestamp record.operation = some ⟨target, record.result, record.events⟩

/-- A run of the book from the empty book. -/
abbrev BookRun (records : List (Record Price)) (book : OrderBook Price) : Prop :=
  Transition.Run (bookSystem Price) records book

/-! ### Resting in place -/

/-- The price of the order that a step leaves to rest compares with the price of every order on
its side. -/
def Record.RestsInPlace (record : Record Price) : Prop :=
  ∀ order, record.operation = .submit order →
    OrderBook.Rests order (record.before.filledBy (BookSide.ofOrder order.side) order) →
      ∀ resting ∈ record.before.resting (BookSide.ofOrder order.side),
        Compares resting.price order.price

/-- Every order that came to rest was comparable with those on its side. -/
def InPlace (records : List (Record Price)) : Prop :=
  ∀ record ∈ records, record.RestsInPlace

theorem InPlace.earlier {front back : List (Record Price)} (inPlace : InPlace (front ++ back)) :
    InPlace front :=
  fun record member => inPlace record (List.mem_append_left _ member)

theorem InPlace.last {front : List (Record Price)} {record : Record Price}
    (inPlace : InPlace (front ++ [record])) : record.RestsInPlace :=
  inPlace record (List.mem_append_right _ List.mem_cons_self)

end Steps

/-- Totally ordered prices always compare. -/
theorem Record.RestsInPlace.of_linear [PriceArithmetic Price] (record : Record Price) :
    record.RestsInPlace :=
  fun _ _ _ resting _ => Compares.of_linear resting.price _

theorem InPlace.of_linear [PriceArithmetic Price] (records : List (Record Price)) :
    InPlace records :=
  fun record _ => .of_linear record

section Reaching

variable [PriceOperations Price]

/-! ### What a step can do -/

/-- The effect of a step on a valid book. -/
inductive StepEffect (source : OrderBook Price) (record : Record Price) (target : OrderBook Price) :
    Prop
  | submit (order : Order Price) (isSubmit : record.operation = .submit order)
      (outcome : source.submitTo (BookSide.ofOrder order.side) order record.timestamp =
        ⟨target, record.result, record.events⟩)
  | cancel (nodeId : String) (side : BookSide) (node : RestingNode Price)
      (resting : node ∈ source.nodes side)
      (isCancel : record.operation = .cancel node.order.orderId nodeId)
      (after : OrderBook Price) (erased : OrderBook.Erased source side node after)
      (book : target =
        { after with orderIndex := Function.update after.orderIndex node.order.orderId none })
      (result : record.result =
        { (EngineResult.initial record.timestamp node.order.orderId : EngineResult Price) with
          cancelSuccessful := true })
      (events : record.events = [.topOfBook (target.currentTopOfBook record.timestamp)])
  | missing (orderId nodeId : String) (isCancel : record.operation = .cancel orderId nodeId)
      (notResting : orderId ∉ source.located.map Prod.fst) (unchanged : target = source)
      (result : record.result =
        { (EngineResult.initial record.timestamp orderId : EngineResult Price) with
          rejectionReason := "order not found: " ++ orderId })
      (events : record.events = [])

theorem step_effect {source target : OrderBook Price} {record : Record Price}
    (wired : source.Wired) (step : (bookSystem Price).step source record target) :
    StepEffect source record target := by
  obtain ⟨_, _, performed⟩ := step
  cases operation : record.operation with
  | submit order =>
    rw [operation] at performed
    refine .submit order operation ?_
    rw [← OrderBook.submit_eq]
    exact Option.some.inj performed
  | cancel orderId nodeId =>
    rw [operation] at performed
    replace performed : source.cancel orderId record.timestamp =
      some ⟨target, record.result, record.events⟩ := performed
    rcases source.resting_or_missing orderId with ⟨side, node, resting, rfl⟩ | notResting
    · obtain ⟨after, erased, outcome⟩ := OrderBook.cancel_resting wired resting record.timestamp
      rw [outcome, Option.some_inj, OrderBook.Outcome.mk.injEq] at performed
      obtain ⟨book, result, events⟩ := performed
      refine .cancel nodeId side node resting operation after erased book.symm result.symm ?_
      rw [← events, ← book]
    · rw [OrderBook.cancel_missing wired orderId record.timestamp notResting, Option.some_inj,
        OrderBook.Outcome.mk.injEq] at performed
      obtain ⟨book, result, events⟩ := performed
      exact .missing orderId nodeId operation notResting book.symm result.symm events.symm

/-! ### Reached books are valid -/

namespace OrderBook

/-- The ids resting after a submit are among those resting before and the order's own. -/
theorem located_submitTo {book : OrderBook Price} (wired : book.Wired) (side : BookSide)
    (order : Order Price) (timestamp : Nat) {orderId : String}
    (member : orderId ∈ (book.submitTo side order timestamp).book.located.map Prod.fst) :
    orderId = order.orderId ∨ orderId ∈ book.located.map Prod.fst := by
  have kept : orderId ∈ (book.matched side order timestamp).located.map Prod.fst →
      orderId ∈ book.located.map Prod.fst := by
    intro inMatched
    have located := (located_matched wired side order timestamp).map Prod.fst
    rw [List.map_append] at located
    exact located.mem_iff.mpr (List.mem_append_right _ inMatched)
  rw [submitTo_book wired] at member
  split_ifs at member
  · have located := ((book.matched side order timestamp).located_rest side
      (order.reduceQuantity (book.filledBy side order))).map Prod.fst
    rcases List.mem_cons.mp (located.mem_iff.mp member) with own | other
    · exact .inl own
    · exact .inr (kept other)
  · exact .inr (kept member)

end OrderBook

/-- What the run so far says about the book: it is valid and rests only submitted ids. -/
structure Reached (records : List (Record Price)) (book : OrderBook Price) : Prop where
  valid : book.Valid
  known : ∀ orderId ∈ book.located.map Prod.fst,
    orderId ∈ (submitted records).map Order.orderId

theorem Reached.step {records : List (Record Price)} {source target : OrderBook Price}
    {record : Record Price} (reached : Reached records source)
    (fresh : FreshIds (records ++ [record])) (sound : NoNegativeRemainder (records ++ [record]))
    (inPlace : record.RestsInPlace) (step : (bookSystem Price).step source record target) :
    Reached (records ++ [record]) target := by
  have older : ∀ orderId ∈ (submitted records).map Order.orderId,
      orderId ∈ (submitted (records ++ [record])).map Order.orderId := by
    intro orderId member
    rw [submitted_append, List.map_append]
    exact List.mem_append_left _ member
  cases step_effect reached.valid.wired step with
  | submit order isSubmit outcome =>
    have inSubmitted : order ∈ submitted (records ++ [record]) :=
      mem_submitted_append.mpr (.inr isSubmit)
    have newId : order.orderId ∉ source.located.map Prod.fst := fun member =>
      fresh.last isSubmit (reached.known _ member)
    have book : target =
        (source.submitTo (BookSide.ofOrder order.side) order record.timestamp).book := by
      rw [outcome]
    rw [book]
    constructor
    · obtain rfl := step.1
      refine reached.valid.submitTo _ order record.timestamp newId (inPlace order isSubmit) ?_
      exact fun rests =>
        OrderBook.remainder_of_nonneg _ _ _ (sound order inSubmitted rests.1) rests
    · intro orderId member
      rcases OrderBook.located_submitTo reached.valid.wired _ order record.timestamp member with
        rfl | old
      · exact List.mem_map_of_mem inSubmitted
      · exact older orderId (reached.known orderId old)
  | cancel nodeId side node resting isCancel after erased book result events =>
    subst book
    refine ⟨reached.valid.erased resting erased, fun orderId member => older orderId ?_⟩
    have located := (OrderBook.located_erased reached.valid.wired resting erased).map Prod.fst
    exact reached.known orderId (located.mem_iff.mpr (List.mem_cons_of_mem _ member))
  | missing orderId nodeId isCancel notResting unchanged result events =>
    subst unchanged
    exact ⟨reached.valid, fun orderId member => older orderId (reached.known orderId member)⟩

/-- Every run with fresh ids, in which no order that may rest has a negative quantity and every
order that comes to rest does so in place, reaches a valid book. -/
theorem bookRun_reached {records : List (Record Price)} {book : OrderBook Price}
    (run : BookRun records book) (fresh : FreshIds records)
    (sound : NoNegativeRemainder records) (inPlace : InPlace records) : Reached records book := by
  refine run.invariant_of_admissible
    (fun records => FreshIds records ∧ NoNegativeRemainder records ∧ InPlace records)
    (fun _ _ admissible => ⟨admissible.1.earlier, admissible.2.1.earlier, admissible.2.2.earlier⟩)
    ?_ ?_ ⟨fresh, sound, inPlace⟩
  · rintro book rfl
    exact ⟨.empty, fun _ member => nomatch member⟩
  · intro records source record target _ admissible reached step
    exact reached.step admissible.1 admissible.2.1 admissible.2.2.last step

/-- An invariant of such runs, whose steps may rely on the reached book. -/
theorem bookRun_invariant (property : List (Record Price) → OrderBook Price → Prop)
    (start : property [] .empty)
    (preserved : ∀ records source record target, Reached records source →
      FreshIds (records ++ [record]) → NoNegativeRemainder (records ++ [record]) →
      record.RestsInPlace → (bookSystem Price).step source record target →
      property records source → property (records ++ [record]) target)
    {records : List (Record Price)} {book : OrderBook Price} (run : BookRun records book)
    (fresh : FreshIds records) (sound : NoNegativeRemainder records)
    (inPlace : InPlace records) : property records book := by
  refine run.invariant_of_admissible
    (fun records => FreshIds records ∧ NoNegativeRemainder records ∧ InPlace records)
    (fun _ _ admissible => ⟨admissible.1.earlier, admissible.2.1.earlier, admissible.2.2.earlier⟩)
    ?_ ?_ ⟨fresh, sound, inPlace⟩
  · rintro book rfl
    exact start
  · intro records source record target prior admissible held step
    have reached := bookRun_reached prior admissible.1.earlier admissible.2.1.earlier
      admissible.2.2.earlier
    exact preserved records source record target reached admissible.1 admissible.2.1
      admissible.2.2.last step held

/-- A run up to one of its steps, and that step. -/
theorem bookRun_split_of_mem {records : List (Record Price)} {book : OrderBook Price}
    (run : BookRun records book) {record : Record Price} (member : record ∈ records) :
    ∃ front back, records = front ++ record :: back ∧ BookRun front record.before ∧
      (bookSystem Price).step record.before record record.after := by
  obtain ⟨front, back, rfl⟩ := List.append_of_mem member
  obtain ⟨source, prior, steps⟩ := run.split
  cases steps with
  | cons step _ =>
    obtain ⟨rfl, rfl, _⟩ := id step
    exact ⟨front, back, rfl, prior, step⟩

/-- Every step of a run starts from a reached book. -/
theorem bookRun_step_of_mem {records : List (Record Price)} {book : OrderBook Price}
    (run : BookRun records book) (fresh : FreshIds records)
    (sound : NoNegativeRemainder records) (inPlace : InPlace records) {record : Record Price}
    (member : record ∈ records) :
    ∃ front, Reached front record.before ∧ FreshIds (front ++ [record]) ∧
      (bookSystem Price).step record.before record record.after := by
  obtain ⟨front, back, rfl, prior, step⟩ := bookRun_split_of_mem run member
  rw [← List.singleton_append, ← List.append_assoc] at fresh
  exact ⟨front, bookRun_reached prior fresh.earlier.earlier sound.earlier inPlace.earlier,
    fresh.earlier, step⟩

/-- The prices at which orders rest after a step were there before, or are that of an order the
step submitted and left to rest. -/
theorem located_price_of_step {source target : OrderBook Price} {record : Record Price}
    (wired : source.Wired) (step : (bookSystem Price).step source record target)
    {entry : String × OrderLocation Price} (member : entry ∈ target.located) :
    entry ∈ source.located ∨ ∃ order, record.operation = .submit order ∧
      order.orderType ≠ .market ∧ entry.2.price = order.price := by
  cases step_effect wired step with
  | submit order isSubmit outcome =>
    have book : (source.submitTo (BookSide.ofOrder order.side) order record.timestamp).book =
        target := by rw [outcome]
    rw [← book, OrderBook.submitTo_book wired] at member
    split_ifs at member with rests
    · rcases List.mem_cons.mp ((OrderBook.located_rest _ _ _).mem_iff.mp member) with rfl | old
      · exact .inr ⟨order, isSubmit, rests.1, rfl⟩
      · exact .inl (OrderBook.matched_subset wired _ order record.timestamp entry old)
    · exact .inl (OrderBook.matched_subset wired _ order record.timestamp entry member)
  | cancel nodeId side node resting isCancel after erased book result events =>
    subst book
    exact .inl ((OrderBook.located_erased wired resting erased).mem_iff.mpr
      (List.mem_cons_of_mem _ member))
  | missing orderId nodeId isCancel notResting unchanged result events =>
    exact .inl (unchanged ▸ member)

end Reaching

/-- Every order comes to rest in place when no order that may rest has a NaN price. -/
theorem InPlace.of_numbers [PriceArithmetic Price] {records : List (Record (WithNaN Price))}
    {book : OrderBook (WithNaN Price)} (run : BookRun records book) (fresh : FreshIds records)
    (sound : NoNegativeRemainder records)
    (numbers : ∀ order ∈ submitted records, order.orderType ≠ .market → order.price ≠ .nan) :
    InPlace records := by
  refine And.left (@Transition.Run.invariant_of_admissible _ _ _
    (fun records => FreshIds records ∧ NoNegativeRemainder records ∧
      ∀ order ∈ submitted records, order.orderType ≠ .market → order.price ≠ .nan)
    (fun records book => InPlace records ∧ ∀ entry ∈ book.located, entry.2.price ≠ .nan)
    _ _ ?_ ?_ ?_ run ⟨fresh, sound, numbers⟩)
  · rintro labels label ⟨fresh, sound, numbers⟩
    refine ⟨fresh.earlier, sound.earlier, fun order member => numbers order ?_⟩
    rw [submitted_append]
    exact List.mem_append_left _ member
  · rintro book rfl
    exact ⟨fun _ member => absurd member List.not_mem_nil,
      fun _ member => absurd member List.not_mem_nil⟩
  · rintro labels source record target prior ⟨fresh, sound, numbers⟩ ⟨inPlace, located⟩ step
    have wired := (bookRun_reached prior fresh.earlier sound.earlier inPlace).valid.wired
    have isNumber : ∀ order, record.operation = .submit order → order.orderType ≠ .market →
        order.price ≠ .nan := fun order isSubmit =>
      numbers order (mem_submitted_append.mpr (.inr isSubmit))
    constructor
    · intro other member
      rcases List.mem_append.mp member with old | isLast
      · exact inPlace other old
      · obtain rfl := List.mem_singleton.mp isLast
        intro order isSubmit rests resting inResting
        obtain ⟨node, inNodes, rfl⟩ := List.mem_map.mp inResting
        obtain ⟨rfl, _⟩ := id step
        exact WithNaN.compares_of_ne_nan
          (located _ ((OrderBook.mem_located _ _).mpr ⟨_, node, inNodes, rfl⟩))
          (isNumber order isSubmit rests.1)
    · intro entry member
      rcases located_price_of_step wired step member with old | ⟨order, isSubmit, mayRest, price⟩
      · exact located entry old
      · exact price ▸ isNumber order isSubmit mayRest

section Described

variable [PriceOperations Price]

/-! ### The order index and the price maps -/

/-- The order index and the two price maps describe the same set of orders, and the lookups of a
cancel never miss. -/
structure OrderBook.Described (book : OrderBook Price) : Prop where
  levels : ∀ side, ∀ entry ∈ (book.levels side).entries, entry.2 ≠ [] ∧
    ∀ node ∈ entry.2, 0 < node.order.quantity ∧ node.order.price = entry.1
  distinct : book.restingIds.Nodup
  index : ∀ orderId location, book.orderIndex orderId = some location ↔
    ∃ side, ∃ node ∈ book.nodes side, node.order.orderId = orderId ∧
      location = ⟨side.tag, node.order.price, node.address⟩
  positions : ∀ side node other otherNode, node ∈ book.nodes side → otherNode ∈ book.nodes other →
    node.address = otherNode.address → side = other ∧ node = otherNode
  cancels : ∀ orderId timestamp, (book.cancel orderId timestamp).isSome

theorem OrderBook.Valid.described {book : OrderBook Price} (valid : book.Valid) :
    book.Described where
  levels side entry member := ⟨valid.nonempty side entry member, fun node inLevel =>
    ⟨(valid.fillable side).positive entry member node inLevel,
      (valid.fillable side).ownPrice entry member node inLevel⟩⟩
  distinct := valid.nodup_restingIds
  index orderId location := by
    rw [valid.indexes.lookup, OrderBook.mem_located]
    constructor
    · rintro ⟨side, node, member, same⟩
      obtain ⟨rfl, rfl⟩ := Prod.mk.inj same
      exact ⟨side, node, member, rfl, rfl⟩
    · rintro ⟨side, node, member, rfl, rfl⟩
      exact ⟨side, node, member, rfl⟩
  positions side node other otherNode member otherMember same := by
    have located := List.inj_on_of_nodup_map valid.addresses
      ((book.mem_located _).mpr ⟨side, node, member, rfl⟩)
      ((book.mem_located _).mpr ⟨other, otherNode, otherMember, rfl⟩) same
    have sameSide : side = other := by
      have tags := congrArg (fun entry => BookSide.ofOrder entry.2.side) located
      simpa [locate] using tags
    subst sameSide
    exact ⟨rfl, OrderBook.node_unique valid.wired member otherMember same⟩
  cancels orderId timestamp := by
    obtain ⟨outcome, defined, _⟩ := valid.cancel orderId timestamp
    rw [defined]
    rfl

/-- A step into a book in which every order stands at its own price rests in place. -/
theorem restsInPlace_of_described {source target : OrderBook Price} {record : Record Price}
    (wired : source.Wired) (step : (bookSystem Price).step source record target)
    (described : target.Described) : record.RestsInPlace := by
  intro order isSubmit rests
  obtain ⟨rfl, _, performed⟩ := step
  rw [isSubmit] at performed
  have outcome : (record.before.submit order record.timestamp).book = target :=
    congrArg OrderBook.Outcome.book (Option.some.inj performed)
  rw [OrderBook.submit_eq, OrderBook.submitTo_book wired, if_pos rests] at outcome
  have own : OrderBook.OwnPrices (target.levels (BookSide.ofOrder order.side)).entries :=
    fun entry member node inLevel => ((described.levels _ entry member).2 node inLevel).2
  rw [← outcome] at own
  have compares := (wired.matched _ order record.timestamp).compares_of_rest own
  rwa [OrderBook.matched_resting_self] at compares

/-- The order index and the two price maps describe the same set of orders in every book of a run
exactly when every order that came to rest had a price comparable with those on its side. -/
theorem index_describes_levels_iff {records : List (Record Price)} {book : OrderBook Price}
    (run : BookRun records book) (fresh : FreshIds records)
    (positive : PositiveQuantities records) :
    (∀ front back reached, records = front ++ back → BookRun front reached →
      reached.Described) ↔ InPlace records := by
  constructor
  · intro described
    refine @Transition.Run.invariant_of_admissible _ _ _
      (fun records => FreshIds records ∧ PositiveQuantities records ∧
        ∀ front back reached, records = front ++ back → BookRun front reached →
          reached.Described)
      (fun records _ => InPlace records) _ _ ?_ ?_ ?_ run ⟨fresh, positive, described⟩
    · rintro labels label ⟨fresh, positive, described⟩
      refine ⟨fresh.earlier, positive.earlier, fun front back reached split prior => ?_⟩
      exact described front (back ++ [label]) reached (by rw [split, List.append_assoc]) prior
    · exact fun _ _ _ member => absurd member List.not_mem_nil
    · rintro labels source label target prior ⟨fresh, positive, described⟩ inPlace step record
        member
      rcases List.mem_append.mp member with old | isLast
      · exact inPlace record old
      · obtain rfl := List.mem_singleton.mp isLast
        have reached := bookRun_reached prior fresh.earlier
          positive.earlier.noNegativeRemainder inPlace
        exact restsInPlace_of_described reached.valid.wired step
          (described _ [] target (List.append_nil _).symm (prior.next step))
  · rintro inPlace front back reached rfl prior
    exact (bookRun_reached prior fresh.earlier positive.earlier.noNegativeRemainder
      inPlace.earlier).valid.described

end Described

/-! ### A short run -/

namespace Sample

section Records

variable [PriceOperations Price]

/-- The record of a submit. -/
def submitRecord (before : OrderBook Price) (timestamp : Nat) (order : Order Price) :
    Record Price :=
  let outcome := before.submit order timestamp
  ⟨.submit order, timestamp, before, outcome.result, outcome.events, outcome.book⟩

/-- The record of a cancel with a defined outcome. -/
def cancelRecord (before : OrderBook Price) (timestamp : Nat) (orderId nodeId : String)
    (defined : (before.cancel orderId timestamp).isSome) : Record Price :=
  let outcome := (before.cancel orderId timestamp).get defined
  ⟨.cancel orderId nodeId, timestamp, before, outcome.result, outcome.events, outcome.book⟩

theorem submitRecord_step (before : OrderBook Price) (timestamp : Nat) (order : Order Price) :
    (bookSystem Price).step before (submitRecord before timestamp order)
      (submitRecord before timestamp order).after := ⟨rfl, rfl, rfl⟩

theorem cancelRecord_step (before : OrderBook Price) (timestamp : Nat) (orderId nodeId : String)
    (defined : (before.cancel orderId timestamp).isSome) :
    (bookSystem Price).step before (cancelRecord before timestamp orderId nodeId defined)
      (cancelRecord before timestamp orderId nodeId defined).after :=
  ⟨rfl, rfl, (Option.some_get defined).symm⟩

end Records

/-- Two asks rest at different prices. -/
def firstAsk : Record ℚ := submitRecord .empty 1 ⟨.ask, .limit, 101, 5, "ORD-0", "mm-1"⟩

def secondAsk : Record ℚ := submitRecord firstAsk.after 2 ⟨.ask, .limit, 100, 5, "ORD-1", "mm-2"⟩

/-- A bid sweeps the better level and part of the other, and its remainder rests. -/
def sweep : Record ℚ := submitRecord secondAsk.after 3 ⟨.bid, .limit, 100, 7, "ORD-2", "mom-1"⟩

/-- The other ask is cancelled. -/
def withdrawal : Record ℚ := cancelRecord sweep.after 4 "ORD-0" "mm-1" (by decide)

/-- The four steps in order. -/
def records : List (Record ℚ) := [firstAsk, secondAsk, sweep, withdrawal]

theorem askRun : BookRun [firstAsk, secondAsk] secondAsk.after :=
  ((Transition.Run.start rfl).next (submitRecord_step _ _ _)).next (submitRecord_step _ _ _)

theorem sweepRun : BookRun [firstAsk, secondAsk, sweep] sweep.after :=
  askRun.next (submitRecord_step _ _ _)

theorem run : BookRun records withdrawal.after :=
  sweepRun.next (cancelRecord_step _ _ _ _ _)

theorem freshIds : FreshIds records := by decide

theorem positiveQuantities : PositiveQuantities records := by decide

/-- Two asks rest, and a market order whose price is NaN takes one and part of the other. -/
def numberAsk : Record (WithNaN ℚ) :=
  submitRecord .empty 1 ⟨.ask, .limit, .number 101, 5, "ORD-0", "mm-1"⟩

def secondNumberAsk : Record (WithNaN ℚ) :=
  submitRecord numberAsk.after 2 ⟨.ask, .limit, .number 100, 5, "ORD-1", "mm-2"⟩

def unpricedBid : Record (WithNaN ℚ) :=
  submitRecord secondNumberAsk.after 3 ⟨.bid, .market, .nan, 7, "ORD-2", "mom-1"⟩

/-- The three steps in order. -/
def unpriced : List (Record (WithNaN ℚ)) := [numberAsk, secondNumberAsk, unpricedBid]

theorem unpricedRun : BookRun unpriced unpricedBid.after :=
  (((Transition.Run.start rfl).next (submitRecord_step _ _ _)).next (submitRecord_step _ _ _)).next
    (submitRecord_step _ _ _)

theorem unpricedFresh : FreshIds unpriced := by decide

theorem unpricedPositive : PositiveQuantities unpriced := by decide

theorem unpricedInPlace : InPlace unpriced :=
  .of_numbers unpricedRun unpricedFresh unpricedPositive.noNegativeRemainder (by decide)

/-- An ask whose price is NaN rests, and an ask at 101 finds its level. -/
def nanAsk : Record (WithNaN ℚ) := submitRecord .empty 1 ⟨.ask, .limit, .nan, 5, "ORD-0", "mm-1"⟩

def absorbedAsk : Record (WithNaN ℚ) :=
  submitRecord nanAsk.after 2 ⟨.ask, .limit, .number 101, 5, "ORD-1", "mm-2"⟩

theorem absorbedRun : BookRun [nanAsk, absorbedAsk] absorbedAsk.after :=
  ((Transition.Run.start rfl).next (submitRecord_step _ _ _)).next (submitRecord_step _ _ _)

end Sample

theorem index_describes_levels_iff_sample : Sample.unpricedBid.after.Described :=
  (index_describes_levels_iff Sample.unpricedRun Sample.unpricedFresh Sample.unpricedPositive).mpr
    Sample.unpricedInPlace _ [] _ (List.append_nil _).symm Sample.unpricedRun

/-- An ask at 101 rests in the level of an ask whose price is NaN. -/
theorem nan_level_absorbs :
    BookRun [Sample.nanAsk, Sample.absorbedAsk] Sample.absorbedAsk.after ∧
      FreshIds [Sample.nanAsk, Sample.absorbedAsk] ∧
      PositiveQuantities [Sample.nanAsk, Sample.absorbedAsk] ∧
      (Sample.absorbedAsk.after.asks.entries.map fun entry =>
        (entry.1, entry.2.map fun node => node.order.price)) =
          [(.nan, [.nan, .number 101])] ∧
      ¬ Sample.absorbedAsk.after.Described := by
  refine ⟨Sample.absorbedRun, by decide, by decide, by decide, fun described => ?_⟩
  have own : ∀ entry ∈ Sample.absorbedAsk.after.asks.entries, ∀ node ∈ entry.2,
      node.order.price = entry.1 := fun entry member node inLevel =>
    ((described.levels .ask entry member).2 node inLevel).2
  revert own
  decide

end MarketSandbox
