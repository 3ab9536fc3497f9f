/-
This file models the sums of level quantities as the book computes them, in
64-bit arithmetic. Nothing bounds what may rest at a price, so a sum can
overflow. The sums of every book that a run reaches are exact precisely when no
order comes to rest at a price where its remainder takes the total to 2^63.
-/

import MarketSandbox.Exchange.Cancellation
import MarketSandbox.Exchange.MarketData
import MarketSandbox.Exchange.Service
import MarketSandbox.Library.CheckedSum

namespace MarketSandbox

open GreedyFill

variable {Price : Type}

namespace OrderBook

/-! ### Sums in 64 bits -/

section Sums

variable [PriceOperations Price]

/-- The quantity accumulated over a level; `none` is overflow. -/
def levelQuantity64 (level : List (RestingNode Price)) : Option Int :=
  CheckedSum.sum (level.map fun node => node.order.quantity)

/-- The accumulated quantity of the first level of a side. -/
def bestQuantity64 : List (Price × List (RestingNode Price)) → Option (Option Int)
  | [] => some none
  | entry :: _ => (levelQuantity64 entry.2).map some

/-- `currentTopOfBook` with its sums in 64 bits; `none` is overflow. -/
def currentTopOfBook64 (book : OrderBook Price) (timestamp : Nat) : Option (TopOfBook Price) := do
  let bidQuantity ← bestQuantity64 book.bids.entries
  let askQuantity ← bestQuantity64 book.asks.entries
  some
    { bidPrice := book.bids.entries.head?.map Prod.fst
      bidQuantity := bidQuantity
      askPrice := book.asks.entries.head?.map Prod.fst
      askQuantity := askQuantity
      timestamp := timestamp }

/-- One price level of `depth` with its sum in 64 bits. -/
def depthLevel64 (entry : Price × List (RestingNode Price)) : Option (DepthLevel Price) := do
  let quantity ← levelQuantity64 entry.2
  some ⟨entry.1, quantity, entry.2.length % 2 ^ 32⟩

/-- `depth` with its sums in 64 bits; `none` is overflow. -/
def depth64 (book : OrderBook Price) (levels : Nat) : Option (BookDepth Price) := do
  let bids ← (book.bids.entries.take levels).mapM depthLevel64
  let asks ← (book.asks.entries.take levels).mapM depthLevel64
  some ⟨bids, asks⟩

/-- The sums of the top of book and of the depth are the totals of what rests at each price,
and positive. -/
structure SumsExact (book : OrderBook Price) : Prop where
  top : ∀ timestamp, ∃ top, book.currentTopOfBook64 timestamp = some top ∧
    ∀ side, top.quantity side = (book.levelPrices side).head?.map (book.quantityAt side)
  depth : ∀ levels, ∃ depth, book.depth64 levels = some depth ∧
    ∀ side, (depth.levels side).map DepthLevel.quantity =
      ((book.levelPrices side).take levels).map (book.quantityAt side)
  positive : ∀ side, ∀ price ∈ book.levelPrices side, 0 < book.quantityAt side price

variable {book : OrderBook Price}

theorem Valid.levelQuantity64_iff (valid : book.Valid) {side : BookSide}
    {entry : Price × List (RestingNode Price)} (member : entry ∈ (book.levels side).entries)
    (total : Int) :
    levelQuantity64 entry.2 = some total ↔
      total = book.quantityAt side entry.1 ∧ book.quantityAt side entry.1 < 2 ^ 63 := by
  have nonneg : ∀ value ∈ entry.2.map fun node => node.order.quantity, 0 ≤ value := by
    intro value inLevel
    obtain ⟨node, inNodes, rfl⟩ := List.mem_map.mp inLevel
    exact le_of_lt ((valid.fillable side).positive entry member node inNodes)
  rw [levelQuantity64, CheckedSum.sum_eq_some_iff nonneg, valid.quantityAt_eq member]
  rfl

/-- Nothing rests at a price that is not a level's. -/
theorem Valid.quantityAt_absent (valid : book.Valid) {side : BookSide} {price : Price}
    (absent : price ∉ book.levelPrices side) : book.quantityAt side price = 0 := by
  rw [quantityAt, List.filter_eq_nil_iff.mpr, List.map_nil, List.sum_nil]
  intro order member
  have different : order.price ≠ price := fun same =>
    absent (((valid.priceLadder).complete price).mpr ⟨order, member, same⟩)
  simpa using different

end Sums

variable [PriceOperations Price] {book : OrderBook Price}

/-- Where every total is in the range, the sums are the unbounded ones. -/
theorem Valid.sums_unbounded (valid : book.Valid)
    (fits : ∀ side price, book.quantityAt side price < 2 ^ 63) :
    (∀ timestamp, book.currentTopOfBook64 timestamp = some (book.currentTopOfBook timestamp)) ∧
      ∀ levels, book.depth64 levels = some (book.depth levels) := by
  have level : ∀ side, ∀ entry ∈ (book.levels side).entries,
      levelQuantity64 entry.2 = some (levelQuantity entry.2) := fun side entry member =>
    (valid.levelQuantity64_iff member _).mpr
      ⟨(valid.quantityAt_eq member).symm, fits side entry.1⟩
  have best : ∀ side, bestQuantity64 (book.levels side).entries =
      some ((book.levels side).entries.head?.map fun entry => levelQuantity entry.2) := by
    intro side
    cases entries : (book.levels side).entries with
    | nil => rfl
    | cons entry rest =>
      have first := level side entry (by rw [entries]; exact List.mem_cons_self)
      rw [bestQuantity64, first]
      rfl
  have shown : ∀ side levels, ((book.levels side).entries.take levels).mapM depthLevel64 =
      some (((book.levels side).entries.take levels).map depthLevel) := by
    intro side levels
    refine CheckedSum.mapM_eq_some_map _ _ fun entry member => ?_
    rw [depthLevel64, level side entry (List.take_subset _ _ member)]
    rfl
  constructor
  · intro timestamp
    rw [currentTopOfBook64, show book.bids.entries = (book.levels .bid).entries from rfl,
      show book.asks.entries = (book.levels .ask).entries from rfl, best .bid, best .ask]
    rfl
  · intro levels
    rw [depth64, show book.bids.entries = (book.levels .bid).entries from rfl,
      show book.asks.entries = (book.levels .ask).entries from rfl, shown .bid, shown .ask]
    rfl

/-- A defined depth traverses the levels of each side. -/
theorem side_of_depth64 (side : BookSide) {levels : Nat} {depth : BookDepth Price}
    (defined : book.depth64 levels = some depth) :
    ∃ shown, ((book.levels side).entries.take levels).mapM depthLevel64 = some shown := by
  obtain ⟨bids, areBids, later⟩ := Option.bind_eq_some_iff.mp defined
  obtain ⟨asks, areAsks, _⟩ := Option.bind_eq_some_iff.mp later
  cases side with
  | bid => exact ⟨bids, areBids⟩
  | ask => exact ⟨asks, areAsks⟩

/-- The sums of a valid book are exact exactly when every total is in the range. -/
theorem Valid.sumsExact_iff (valid : book.Valid) :
    book.SumsExact ↔ ∀ side price, book.quantityAt side price < 2 ^ 63 := by
  constructor
  · intro sums side price
    by_cases isLevel : price ∈ book.levelPrices side
    · obtain ⟨entry, member, rfl⟩ := List.mem_map.mp isLevel
      obtain ⟨depth, defined, _⟩ := sums.depth (book.levels side).entries.length
      obtain ⟨shown, traversed⟩ := side_of_depth64 side defined
      rw [List.take_length] at traversed
      obtain ⟨level, isLevel⟩ := CheckedSum.defined_of_mapM traversed entry member
      obtain ⟨quantity, summed, _⟩ := Option.bind_eq_some_iff.mp isLevel
      exact ((valid.levelQuantity64_iff member quantity).mp summed).2
    · rw [valid.quantityAt_absent isLevel]
      decide
  · intro fits
    obtain ⟨top, depth⟩ := valid.sums_unbounded fits
    refine ⟨fun timestamp => ⟨_, top timestamp, fun side => valid.top_quantity timestamp⟩,
      fun levels => ⟨_, depth levels, fun side => ?_⟩, fun side price => valid.quantityAt_pos⟩
    rw [valid.depth_levels, List.map_map]
    rfl

/-! ### Totals over a step -/

/-- The remainder of an order that is submitted to a book. -/
def remainderOf (book : OrderBook Price) (order : Order Price) : Int :=
  order.quantity - book.filledBy (BookSide.ofOrder order.side) order

/-- An order that comes to rest leaves the total at its price in the range. -/
def RestFits (book : OrderBook Price) (order : Order Price) : Prop :=
  Rests order (book.filledBy (BookSide.ofOrder order.side) order) →
    book.quantityAt (BookSide.ofOrder order.side) order.price + book.remainderOf order < 2 ^ 63

theorem quantityAt_matched_le (valid : book.Valid) (side : BookSide) (order : Order Price)
    (timestamp : Nat) (other : BookSide) (price : Price) :
    (book.matched side order timestamp).quantityAt other price ≤ book.quantityAt other price := by
  revert other
  refine side.forall_of_opposite ?_ ?_
  · rw [quantityAt, matched_resting_self, ← quantityAt]
  · have positive : Positive Order.quantity ((openNodes side order
        (book.levels side.opposite).entries).map RestingNode.order) := by
      intro resting member
      obtain ⟨node, isOpen, rfl⟩ := List.mem_map.mp member
      exact openNodes_positive valid _ _ node isOpen
    have conserved := quantity_conserved Order.quantity Order.reduceQuantity
      (fun resting : Order Price => resting.price = price) (fun _ _ => rfl) (fun _ _ => rfl)
      order.quantity
      ((openNodes side order (book.levels side.opposite).entries).map RestingNode.order)
    have nonneg : 0 ≤ (((fills Order.quantity order.quantity
        ((openNodes side order (book.levels side.opposite).entries).map RestingNode.order)).filter
          fun fill => fill.1.price = price).map Prod.snd).sum := by
      refine List.sum_nonneg fun amount member => ?_
      obtain ⟨fill, inFilter, rfl⟩ := List.mem_map.mp member
      exact (fills_positive positive (List.mem_of_mem_filter inFilter)).le
    rw [quantityAt, quantityAt, matched_resting_opposite valid.wired, resting_split book side order]
    simp only [List.filter_append, List.map_append, List.sum_append]
    omega

theorem quantityAt_rest (book : OrderBook Price) (side : BookSide) (order : Order Price)
    (price : Price) :
    (book.rest side order).quantityAt side price =
      book.quantityAt side price + if order.price = price then order.quantity else 0 := by
  have added := (((rest_nodes_self book side order).map RestingNode.order).filter
    fun resting => resting.price = price).map Order.quantity
  rw [quantityAt, resting, added.sum_eq, quantityAt, resting]
  by_cases same : order.price = price <;> simp [same, add_comm]

theorem quantityAt_rest_opposite (book : OrderBook Price) (side : BookSide) (order : Order Price)
    (price : Price) :
    (book.rest side order).quantityAt side.opposite price =
      book.quantityAt side.opposite price := by
  rw [quantityAt, resting, rest_nodes_opposite, ← resting, ← quantityAt]

theorem quantityAt_erased_le {after : OrderBook Price} (valid : book.Valid) {side : BookSide}
    {node : RestingNode Price} (member : node ∈ book.nodes side)
    (erased : Erased book side node after) (other : BookSide) (price : Price) :
    after.quantityAt other price ≤ book.quantityAt other price := by
  have kept : ((after.resting other).filter fun order => order.price = price).Sublist
      ((book.resting other).filter fun order => order.price = price) := by
    rw [erased.resting_filter valid member other]
    exact List.filter_sublist.filter _
  refine (kept.map Order.quantity).sum_le_sum fun quantity inBook => ?_
  obtain ⟨resting, inFilter, rfl⟩ := List.mem_map.mp inBook
  refine (valid.resting_positive resting ?_).le
  exact (book.restingOrders_perm other).mem_iff.mpr
    (List.mem_append_left _ (List.mem_of_mem_filter inFilter))

end OrderBook

open OrderBook

variable [PriceOperations Price]

/-- A step of a run keeps every total in the range when what it rests fits. -/
theorem quantityAt_step {source target : OrderBook Price} {record : Record Price}
    (valid : source.Valid) (step : (bookSystem Price).step source record target)
    (fits : ∀ side price, source.quantityAt side price < 2 ^ 63)
    (meets : ∀ order, record.operation = .submit order → source.RestFits order) :
    ∀ side price, target.quantityAt side price < 2 ^ 63 := by
  cases step_effect valid.wired step with
  | submit order isSubmit _ =>
    have effect := submit_effect valid.wired step isSubmit
    have matched := quantityAt_matched_le valid (BookSide.ofOrder order.side) order
      record.timestamp
    intro other price
    rw [effect.book]
    split_ifs with rests
    · revert other
      refine (BookSide.ofOrder order.side).forall_of_opposite ?_ ?_
      · have own := matched (BookSide.ofOrder order.side) price
        have below := fits (BookSide.ofOrder order.side) price
        have remainder := meets order isSubmit rests
        rw [remainderOf] at remainder
        rw [quantityAt_rest, Order.reduceQuantity_price, Order.reduceQuantity_quantity]
        split_ifs with same
        · subst same
          omega
        · omega
      · rw [quantityAt_rest_opposite]
        exact (matched _ price).trans_lt (fits _ price)
    · exact (matched other price).trans_lt (fits other price)
  | cancel nodeId side node inNodes isCancel after erased book result events =>
    intro other price
    rw [book]
    exact (quantityAt_erased_le valid inNodes erased other price).trans_lt (fits other price)
  | missing orderId nodeId isCancel notResting unchanged result events =>
    rw [unchanged]
    exact fits

/-- After a submit whose totals are in the range, what it rested fits. -/
theorem SubmitEffect.restFits {source target : OrderBook Price} {record : Record Price}
    {order : Order Price} (effect : SubmitEffect source record target order)
    (fits : ∀ side price, target.quantityAt side price < 2 ^ 63) : source.RestFits order := by
  intro rests
  have total := fits (BookSide.ofOrder order.side) order.price
  rw [effect.book, if_pos rests, quantityAt_rest, quantityAt, matched_resting_self,
    Order.reduceQuantity_price, if_pos rfl, Order.reduceQuantity_quantity] at total
  exact total

/-! ### Every book of a run -/

namespace Sample

/-- Two bids of the largest quantity at one price. -/
def hugeRequests : List (Request ℚ) :=
  [.submitOrder ⟨"mm-1", 1, 2, 100, 2 ^ 63 - 1⟩ "ORD-0",
    .submitOrder ⟨"mm-2", 1, 2, 100, 2 ^ 63 - 1⟩ "ORD-1"]

def hugeBid : Record ℚ := submitRecord .empty 1 ⟨.bid, .limit, 100, 2 ^ 63 - 1, "ORD-0", "mm-1"⟩

def secondHugeBid : Record ℚ :=
  submitRecord hugeBid.after 2 ⟨.bid, .limit, 100, 2 ^ 63 - 1, "ORD-1", "mm-2"⟩

theorem hugeRun : BookRun [hugeBid, secondHugeBid] secondHugeBid.after :=
  ((Transition.Run.start rfl).next (submitRecord_step _ _ _)).next (submitRecord_step _ _ _)

end Sample

/-- Where every order came to rest in place, the level sums of every book that a run passes through
are exact precisely when no order comes to rest at a price where its remainder takes the total out
of the range. -/
theorem level_sums_exact_iff {records : List (Record Price)} {book : OrderBook Price}
    (run : BookRun records book) (fresh : FreshIds records)
    (positive : PositiveQuantities records) (inPlace : InPlace records) :
    (∀ front back reached, records = front ++ back → BookRun front reached →
        reached.SumsExact) ↔
      ∀ record ∈ records, ∀ order, record.operation = .submit order →
        record.before.RestFits order := by
  constructor
  · intro sums record member order isSubmit
    obtain ⟨front, back, rfl, prior, step⟩ := bookRun_split_of_mem run member
    have sound := positive.noNegativeRemainder
    have split : front ++ record :: back = front ++ [record] ++ back := by simp
    have reached := bookRun_reached prior fresh.earlier sound.earlier inPlace.earlier
    have effect := submit_effect reached.valid.wired step isSubmit
    rw [split] at fresh sound inPlace
    have after := (bookRun_reached (prior.next step) fresh.earlier sound.earlier
      inPlace.earlier).valid
    exact effect.restFits (after.sumsExact_iff.mp (sums _ back _ split (prior.next step)))
  · rintro meets front back reached rfl prior
    have sound := positive.noNegativeRemainder
    refine (bookRun_reached prior fresh.earlier sound.earlier
      inPlace.earlier).valid.sumsExact_iff.mpr ?_
    refine bookRun_invariant (fun records book =>
      (∀ record ∈ records, ∀ order, record.operation = .submit order →
        record.before.RestFits order) → ∀ side price, book.quantityAt side price < 2 ^ 63)
      ?_ ?_ prior fresh.earlier sound.earlier inPlace.earlier
        fun record member => meets record (List.mem_append_left _ member)
    · intro _ side price
      have nothing : (0 : Int) < 2 ^ 63 := by decide
      cases side <;> exact nothing
    · intro records source record target before _ _ _ step kept meets
      obtain ⟨rfl, _, _⟩ := id step
      refine quantityAt_step before.valid step
        (kept fun other member => meets other (List.mem_append_left _ member)) ?_
      exact meets record (List.mem_append_right _ List.mem_cons_self)

theorem level_sums_exact_iff_sample : Sample.unpricedBid.after.SumsExact := by
  have fits : ∀ record ∈ Sample.unpriced, ∀ order ∈ record.operation.submitted?,
      Rests order (record.before.filledBy (BookSide.ofOrder order.side) order) →
        record.before.quantityAt (BookSide.ofOrder order.side) order.price +
          record.before.remainderOf order < 2 ^ 63 := by decide
  refine (level_sums_exact_iff Sample.unpricedRun Sample.unpricedFresh Sample.unpricedPositive
    Sample.unpricedInPlace).mpr ?_ Sample.unpriced [] _ rfl Sample.unpricedRun
  exact fun record member order isSubmit => fits record member order (by rw [isSubmit]; rfl)

/-- The sums of the two largest bids at one price overflow. -/
theorem level_sum_overflows :
    BookRun [Sample.hugeBid, Sample.secondHugeBid] Sample.secondHugeBid.after ∧
      [Sample.hugeBid, Sample.secondHugeBid].map Record.operation =
        Sample.hugeRequests.map Request.payload ∧
      FreshIds [Sample.hugeBid, Sample.secondHugeBid] ∧
      PositiveQuantities [Sample.hugeBid, Sample.secondHugeBid] ∧
      Sample.secondHugeBid.after.currentTopOfBook64 2 = none ∧
      Sample.secondHugeBid.after.depth64 10 = none ∧
      ¬ Sample.secondHugeBid.after.SumsExact := by
  have overflow : Sample.secondHugeBid.after.currentTopOfBook64 2 = none := by decide
  refine ⟨Sample.hugeRun, rfl, by decide, by decide, overflow, by decide, fun sums => ?_⟩
  obtain ⟨top, defined, _⟩ := sums.top 2
  rw [overflow] at defined
  cases defined

end MarketSandbox
