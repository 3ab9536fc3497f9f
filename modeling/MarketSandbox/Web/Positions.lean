/-
This file proves that the positions and the cash that the page shows are the
engine's. A trade's buyer and seller are the nodes of its bid and of its ask;
each trade on the wire is a trade of the engine with the same quantity and
price, credited to its buyer and its seller.
-/

import MarketSandbox.Exchange.Limits
import MarketSandbox.Gateway.Tracking
import MarketSandbox.Web.Stats

namespace MarketSandbox

variable {Price : Type}

/-! ### Buyers and sellers -/

section Parties

variable [LinearOrder Price]

/-- The node of the order on a side, of the two orders that a trade names. -/
def partyOn (records : List (Record Price)) (side : OrderSide) (trade : Trade Price) :
    Option String :=
  ((submitted records).find? fun order =>
    (order.orderId = trade.aggressorOrderId ∨ order.orderId = trade.restingOrderId) ∧
      order.side = side).map Order.nodeId

/-- The trades in which a node bought. -/
def boughtBy (records : List (Record Price)) (node : String) (trades : List (Trade Price)) :
    List (Trade Price) :=
  trades.filter fun trade => partyOn records .bid trade = some node

/-- The trades in which a node sold. -/
def soldBy (records : List (Record Price)) (node : String) (trades : List (Trade Price)) :
    List (Trade Price) :=
  trades.filter fun trade => partyOn records .ask trade = some node

/-- The quantity of trades. -/
def tradedQuantity (trades : List (Trade Price)) : Int := (trades.map Trade.quantity).sum

/-- The money of trades. -/
def tradedMoney [Ring Price] (trades : List (Trade Price)) : Price :=
  (trades.map fun trade => (trade.quantity : Price) * trade.price).sum

/-- The only order of a trade on a side is its party. -/
theorem partyOn_eq {records : List (Record Price)} {side : OrderSide} {trade : Trade Price}
    {order : Order Price} (member : order ∈ submitted records)
    (named : order.orderId = trade.aggressorOrderId ∨ order.orderId = trade.restingOrderId)
    (isSide : order.side = side)
    (only : ∀ other ∈ submitted records, (other.orderId = trade.aggressorOrderId ∨
      other.orderId = trade.restingOrderId) → other.side = side → other = order) :
    partyOn records side trade = some order.nodeId := by
  rw [partyOn]
  cases found : (submitted records).find? fun other =>
    (other.orderId = trade.aggressorOrderId ∨ other.orderId = trade.restingOrderId) ∧
      other.side = side with
  | none =>
    have absent := List.find?_eq_none.mp found order member
    exact absurd (decide_eq_true ⟨named, isSide⟩) absent
  | some other =>
    have holds : (other.orderId = trade.aggressorOrderId ∨
        other.orderId = trade.restingOrderId) ∧ other.side = side := by
      simpa using List.find?_some found
    rw [only other (List.mem_of_find?_eq_some found) holds.1 holds.2]
    rfl

/-- A trade on the wire is credited to the trade's buyer and seller. -/
structure Credited (records : List (Record Price)) (trade : Trade Price) (wire : WireTrade Price) :
    Prop where
  qty : wire.qty = trade.quantity
  price : wire.price = trade.price
  aggressor : partyOn records wire.aggressorSide.tag trade = some wire.aggressorNode
  resting : partyOn records wire.aggressorSide.opposite.tag trade = some wire.restingNode

/-- What a credited trade moves goes to its buyer and comes from its seller. -/
theorem Credited.movedTo {Amount : Type} [AddCommGroup Amount] {records : List (Record Price)}
    {trade : Trade Price} {wire : WireTrade Price} (credited : Credited records trade wire)
    {moved : WireTrade Price → Amount} {value : Amount}
    (isValue : moved wire = wire.dir • value) (node : String) :
    wire.movedTo moved node =
      (if partyOn records .bid trade = some node then value else 0) -
        if partyOn records .ask trade = some node then value else 0 := by
  obtain ⟨_, _, aggressor, resting⟩ := credited
  rw [WireTrade.movedTo, isValue]
  cases side : wire.aggressorSide with
  | bid =>
    rw [side] at aggressor resting
    rw [show partyOn records .bid trade = _ from aggressor,
      show partyOn records .ask trade = _ from resting, WireTrade.dir, side]
    simp only [Option.some_inj, one_zsmul]
  | ask =>
    rw [side] at aggressor resting
    rw [show partyOn records .ask trade = _ from aggressor,
      show partyOn records .bid trade = _ from resting, WireTrade.dir, side]
    simp only [Option.some_inj, neg_zsmul, one_zsmul]
    split_ifs <;> abel

theorem sum_map_neg {Value Amount : Type} [AddCommGroup Amount] (values : List Value)
    (amount : Value → Amount) :
    (values.map fun value => -amount value).sum = -(values.map amount).sum := by
  induction values with
  | nil => simp
  | cons value rest inductionHypothesis =>
    simp only [List.map_cons, List.sum_cons, inductionHypothesis, neg_add]

/-- Over credited trades, a node gets what it bought less what it sold. -/
theorem sum_movedTo {Amount : Type} [AddCommGroup Amount] {records : List (Record Price)}
    {trades : List (Trade Price)} {wires : List (WireTrade Price)}
    (credited : List.Forall₂ (Credited records) trades wires)
    {moved : WireTrade Price → Amount} {value : Trade Price → Amount}
    (isValue : ∀ trade wire, Credited records trade wire → moved wire = wire.dir • value trade)
    (node : String) :
    (wires.map (WireTrade.movedTo moved node)).sum =
      ((boughtBy records node trades).map value).sum -
        ((soldBy records node trades).map value).sum := by
  induction credited with
  | nil => simp [boughtBy, soldBy]
  | @cons trade wire trades wires first _ inductionHypothesis =>
    rw [List.map_cons, List.sum_cons, inductionHypothesis, first.movedTo (isValue _ _ first)]
    by_cases bought : partyOn records .bid trade = some node <;>
      by_cases sold : partyOn records .ask trade = some node <;>
      simp [boughtBy, soldBy, bought, sold] <;> abel

end Parties

/-! ### The batches of a run -/

/-- The batches up to an index are the first ones. -/
theorem batchesUpTo_eq_take (frames : List (Frame Price)) (idx : Int) :
    batchesUpTo frames idx =
      (frames.filterMap Frame.batch?).take (batchesUpTo frames idx).length := by
  refine List.prefix_iff_eq_take.mp ?_
  exact (List.take_prefix _ frames).filterMap Frame.batch?

section Batches

variable [PriceArithmetic Price]

/-- The batches that the gateway sends for a sequence of deliveries. -/
def Normalizer.batches (normalizer : Normalizer Price) :
    List (Delivery Price) → List (WireBatch Price)
  | [] => []
  | delivery :: rest => normalizer.wire delivery :: (normalizer.feed [delivery]).batches rest

theorem Normalizer.batches_append (normalizer : Normalizer Price)
    (front back : List (Delivery Price)) :
    normalizer.batches (front ++ back) =
      normalizer.batches front ++ (normalizer.feed front).batches back := by
  induction front generalizing normalizer with
  | nil => rfl
  | cons delivery rest inductionHypothesis =>
    rw [List.cons_append, batches, inductionHypothesis, batches, List.cons_append,
      ← List.singleton_append (l := rest), feed_append]

theorem Normalizer.batches_take (normalizer : Normalizer Price)
    (deliveries : List (Delivery Price)) (count : Nat) :
    (normalizer.batches deliveries).take count = normalizer.batches (deliveries.take count) := by
  induction deliveries generalizing normalizer count with
  | nil => simp [batches]
  | cons delivery rest inductionHypothesis =>
    cases count with
    | zero => rfl
    | succ count =>
      rw [batches, List.take_succ_cons, inductionHypothesis, List.take_succ_cons, batches]

/-- Sides are `BID` or `ASK`. -/
def KnownSides (records : List (Record Price)) : Prop :=
  ∀ order ∈ submitted records, order.side = .bid ∨ order.side = .ask

instance (records : List (Record Price)) : Decidable (KnownSides records) :=
  inferInstanceAs (Decidable (∀ order ∈ submitted records, order.side = .bid ∨ order.side = .ask))

/-- The two orders of a trade: the aggressor's and the resting one's, of the other side. -/
theorem trade_orders {front back : List (Record Price)} {record : Record Price}
    (prior : BookRun front record.before)
    (step : (bookSystem Price).step record.before record record.after)
    (fresh : FreshIds (front ++ record :: back))
    (positive : PositiveQuantities (front ++ record :: back))
    (sides : KnownSides (front ++ record :: back)) {trade : Trade Price}
    (inTrades : trade ∈ record.trades) :
    ∃ order resting : Order Price, ∃ side : BookSide, record.operation = .submit order ∧
      order ∈ submitted (front ++ record :: back) ∧
      resting ∈ submitted (front ++ record :: back) ∧
      order.orderId = trade.aggressorOrderId ∧ resting.orderId = trade.restingOrderId ∧
      trade.aggressorSide = side.tag ∧ order.side = side.tag ∧
      resting.side = side.opposite.tag := by
  have known : ∀ order ∈ submitted (front ++ record :: back),
      order.side = (BookSide.ofOrder order.side).tag := by
    intro order member
    rcases sides order member with isBid | isAsk
    · rw [isBid]
      rfl
    · rw [isAsk]
      rfl
  have sound := positive.noNegativeRemainder.earlier
  have valid := (bookRun_reached prior fresh.earlier sound (.of_linear _)).valid
  obtain ⟨order, isSubmit, effect⟩ := submit_of_mem_trades valid step inTrades
  obtain ⟨resting, isOpen, isId, _⟩ := effect.hits inTrades
  have opposite : resting ∈ record.before.resting (BookSide.ofOrder order.side).opposite := by
    rw [OrderBook.resting_split]
    exact List.mem_append_left _ isOpen
  have own := bookRun_own_sides prior fresh.earlier sound (.of_linear _) _ resting opposite
  obtain ⟨origin, wasSubmitted, _, _, rfl⟩ :=
    bookRun_remainder prior fresh.earlier sound (.of_linear _) resting
      ((record.before.restingOrders_perm _).mem_iff.mpr (List.mem_append_left _ opposite))
  have inSubmitted : order ∈ submitted (front ++ record :: back) :=
    List.mem_filterMap.mpr ⟨record, by simp, by rw [isSubmit]; rfl⟩
  have originSubmitted : origin ∈ submitted (front ++ record :: back) := by
    rw [submitted_append]
    exact List.mem_append_left _ wasSubmitted
  refine ⟨order, origin, BookSide.ofOrder order.side, isSubmit, inSubmitted, originSubmitted,
    (effect.aggressor inTrades).symm, isId.symm,
    (effect.aggressorSide inTrades).trans (known order inSubmitted), known order inSubmitted, ?_⟩
  rw [known origin originSubmitted]
  exact congrArg BookSide.tag own

/-- A copy of a trade under its aggressor's node, attributed to its resting order's submitter, is
credited to its buyer and seller. -/
theorem credited_of_copied {front back : List (Record Price)} {record : Record Price}
    (emitted : Emitted front record.before record record.after)
    (fresh : FreshIds (front ++ record :: back))
    (positive : PositiveQuantities (front ++ record :: back))
    (sides : KnownSides (front ++ record :: back)) {order : Order Price}
    (isSubmit : record.operation = .submit order) {trade : Trade Price}
    (inTrades : trade ∈ record.trades) {wire : WireTrade Price}
    (copied : Copied order.nodeId trade wire)
    (submitter : Submitter (front ++ record :: back) wire.resting wire.restingNode) :
    Credited (front ++ record :: back) trade wire := by
  obtain ⟨aggressor, resting, side, isAggressor, aggressorSubmitted, restingSubmitted, aggressorId,
    restingId, tradeSide, aggressorSide, restingSide⟩ :=
    trade_orders emitted.run emitted.step fresh positive sides inTrades
  obtain rfl := Operation.submit.inj (isSubmit.symm.trans isAggressor)
  have affordable := emitted.affordable isSubmit
  have tradePositive := affordable.positive trade inTrades
  have small := (le_tradedAs affordable.positive inTrades).trans_lt
    ((affordable.covered _).trans_lt (affordable.safe _))
  have wireSide : wire.aggressorSide = side := by
    rw [copied.aggressorSide, tradeSide]
    cases side <;> rfl
  have owner : wire.restingNode = resting.nodeId := by
    obtain ⟨origin, originSubmitted, isId, isNode⟩ := submitter
    rw [← isNode, fresh.unique originSubmitted restingSubmitted
      (isId.trans (copied.resting.trans restingId.symm))]
  have differ : side.tag ≠ side.opposite.tag := by cases side <;> decide
  -- The two orders of the trade are on different sides, so each side names one of them.
  have named : ∀ other ∈ submitted (front ++ record :: back),
      (other.orderId = trade.aggressorOrderId ∨ other.orderId = trade.restingOrderId) →
        other = order ∨ other = resting := by
    intro other member isNamed
    refine isNamed.imp (fun isId => ?_) fun isId => ?_
    · exact fresh.unique member aggressorSubmitted (isId.trans aggressorId.symm)
    · exact fresh.unique member restingSubmitted (isId.trans restingId.symm)
  refine ⟨copied.qty.trans (SafeInteger.toNumber_of_nonneg tradePositive.le small), copied.price,
    ?_, ?_⟩
  · rw [wireSide, copied.aggressorNode]
    refine partyOn_eq aggressorSubmitted (.inl aggressorId) aggressorSide ?_
    intro other member isNamed isSide
    refine (named other member isNamed).resolve_right fun isResting => differ ?_
    rw [← isSide, isResting, restingSide]
  · rw [wireSide, owner]
    refine partyOn_eq restingSubmitted (.inr restingId) restingSide ?_
    intro other member isNamed isSide
    refine (named other member isNamed).resolve_left fun isAggressor => differ ?_
    rw [← aggressorSide, ← isAggressor, isSide]

/-- The trades of a delivered batch are credited to their buyers and sellers. -/
theorem Watched.credited {front back : List (Delivery Price)} {delivery : Delivery Price}
    {book : OrderBook Price} (watched : Watched (front ++ delivery :: back) book)
    (sides : KnownSides ((front ++ delivery :: back).map Delivery.record)) :
    List.Forall₂ (Credited ((front ++ delivery :: back).map Delivery.record))
      delivery.record.trades ((Normalizer.initial.feed front).wire delivery).trades := by
  obtain ⟨_, emitted, _⟩ := watched.split
  have attributes := watched.attributes rfl
  obtain ⟨run, fresh, positive, _, _⟩ := watched
  rw [List.map_append, List.map_cons] at run fresh positive sides attributes ⊢
  cases step_effect emitted.valid.wired emitted.step with
  | submit order isSubmit _ =>
    have received := delivery.wire_trades_submit (Normalizer.initial.feed front) isSubmit
    rw [received] at attributes ⊢
    have copies := normalizeTrades_copies order.nodeId delivery.record.trades
      (Normalizer.initial.feed front).resting
    refine List.forall₂_iff_get.mpr ⟨copies.length_eq, fun index isTrade isWire => ?_⟩
    exact credited_of_copied emitted fresh positive sides isSubmit
      (List.get_mem delivery.record.trades ⟨index, isTrade⟩) (copies.get isTrade isWire)
      (attributes _ (List.get_mem _ ⟨index, isWire⟩))
  | cancel _ _ _ _ _ _ _ _ _ events =>
    obtain ⟨node, received⟩ := delivery.wire_trades (Normalizer.initial.feed front)
    rw [received, Record.rawTrades, Record.trades_of_cancel events]
    exact .nil
  | missing _ _ _ _ _ _ events =>
    obtain ⟨node, received⟩ := delivery.wire_trades (Normalizer.initial.feed front)
    rw [received, Record.rawTrades, Record.trades_of_missing events]
    exact .nil

/-- The trades of all batches are credited to their buyers and sellers. -/
theorem Watched.batches_credited {deliveries : List (Delivery Price)} {book : OrderBook Price}
    (watched : Watched deliveries book) (sides : KnownSides (deliveries.map Delivery.record))
    {front back : List (Delivery Price)} (split : deliveries = front ++ back) :
    List.Forall₂ (Credited (deliveries.map Delivery.record))
      (front.flatMap fun delivery => delivery.record.trades)
      ((Normalizer.initial.batches front).flatMap WireBatch.trades) := by
  induction front using List.reverseRecOn generalizing back with
  | nil => exact .nil
  | append_singleton front delivery inductionHypothesis =>
    rw [List.append_assoc, List.singleton_append] at split
    have earlier := inductionHypothesis split
    subst split
    rw [Normalizer.batches_append, List.flatMap_append, List.flatMap_append,
      List.flatMap_singleton]
    refine List.rel_append earlier ?_
    rw [Normalizer.batches, Normalizer.batches, List.flatMap_singleton]
    exact watched.credited sides

/-! ### What the page shows -/

/-- The trades of the engine up to the last batch that a page has at an index. -/
def tradesUpTo (deliveries : List (Delivery Price)) (frames : List (Frame Price)) (idx : Int) :
    List (Trade Price) :=
  (deliveries.take (batchesUpTo frames idx).length).flatMap fun delivery => delivery.record.trades

end Batches

section Exact

variable [Field Price] [LinearOrder Price]

/-- Each node's position is what it bought less what it sold, its cash what it received less what
it paid, over the engine's trades up to the frame shown; so they and the profits sum to zero. -/
theorem positions_are_engines {deliveries : List (Delivery Price)} {book : OrderBook Price}
    (run : BookRun (deliveries.map Delivery.record) book)
    (fresh : FreshIds (deliveries.map Delivery.record))
    (positive : PositiveQuantities (deliveries.map Delivery.record))
    (safe : SafeQuantities (deliveries.map Delivery.record))
    (bounded : ∀ delivery ∈ deliveries, delivery.record.after.restingOrders.length ≤ 50000)
    (sides : KnownSides (deliveries.map Delivery.record)) {frames : List (Frame Price)}
    (received : frames.filterMap Frame.batch? = Normalizer.initial.batches deliveries)
    (idx : Int) (roster : List RosterEntry) :
    let records := deliveries.map Delivery.record
    let trades := tradesUpTo deliveries frames idx
    let shown := (computeStats frames idx roster).stats
    (∀ node, shown.read BotStat.position node =
      tradedQuantity (boughtBy records node trades) -
        tradedQuantity (soldBy records node trades)) ∧
    (∀ node, shown.read BotStat.cash node =
      tradedMoney (soldBy records node trades) - tradedMoney (boughtBy records node trades)) ∧
    shown.total BotStat.position = 0 ∧ shown.total BotStat.cash = 0 ∧
    shown.total BotStat.pnl = 0 := by
  intro records trades shown
  have watched : Watched deliveries book := ⟨run, fresh, positive, safe, bounded⟩
  have upTo : batchesUpTo frames idx =
      Normalizer.initial.batches (deliveries.take (batchesUpTo frames idx).length) := by
    conv_lhs => rw [batchesUpTo_eq_take, received, Normalizer.batches_take]
  have credited := watched.batches_credited sides
    (List.take_append_drop (batchesUpTo frames idx).length deliveries).symm
  rw [← upTo] at credited
  have isMoney : ∀ (trade : Trade Price) (wire : WireTrade Price), Credited records trade wire →
      -(((wire.dir * wire.qty : Int) : Price) * wire.price) =
        wire.dir • -((trade.quantity : Price) * trade.price) := by
    intro trade wire credit
    rw [credit.qty, credit.price, zsmul_eq_mul, Int.cast_mul, mul_assoc, mul_neg]
  have isShown : shown = _ := congrArg ComputedStats.stats (computeStats_eq frames idx roster)
  refine ⟨fun node => ?_, fun node => ?_, ?_, ?_, ?_⟩
  · rw [isShown, read_settle _ (fun _ => rfl), positionAccount.after_read]
    refine sum_movedTo credited (fun trade wire credit => ?_) node
    rw [credit.qty, zsmul_eq_mul, Int.cast_id]
  · rw [isShown, read_settle _ (fun _ => rfl), cashAccount.after_read]
    rw [sum_movedTo credited isMoney node, sum_map_neg, sum_map_neg, sub_neg_eq_add,
      neg_add_eq_sub]
    rfl
  · rw [isShown, total_mapValues]
    exact positionAccount.after_total _ _
  · rw [isShown, total_mapValues]
    exact cashAccount.after_total _ _
  · rw [isShown, total_pnl, cashAccount.after_total, positionAccount.after_total, Int.cast_zero,
      zero_mul, add_zero]

theorem positions_are_engines_sample :
    (computeStats ((Normalizer.initial.batches Sample.deliveries).map .batch) 3 []).stats.read
      (BotStat.position : BotStat ℚ → Int) "mom-1" =
      tradedQuantity (boughtBy Sample.records "mom-1" (Sample.records.flatMap Record.trades)) -
        tradedQuantity (soldBy Sample.records "mom-1" (Sample.records.flatMap Record.trades)) :=
  (positions_are_engines Sample.deliveredRun Sample.freshIds Sample.positiveQuantities
    (by decide) (by decide) (by decide)
    (show ((Normalizer.initial.batches Sample.deliveries).map Frame.batch).filterMap
      Frame.batch? = _ from rfl) 3 []).1 "mom-1"

end Exact

end MarketSandbox
