/-
This file models `computeStats`: what the page shows of each node's fills,
position and cash, and of the user's open orders, computed from the frames of
its feed. Positions, cash and volumes are exact; the open orders' quantities
are numbers. It computes each node's position and cash in terms of the trades
on the wire, and proves that they sum to zero over the nodes.
-/

import Mathlib.Algebra.Ring.Int.Defs
import Mathlib.Algebra.Ring.Rat
import Mathlib.Tactic.Abel
import MarketSandbox.Web.Feed

namespace MarketSandbox

variable {Price : Type}

/-! ### The model -/

/-- `BotStat`. -/
structure BotStat (Price : Type) where
  id : String
  strategy : String
  orders : Nat
  cancels : Nat
  fills : Nat
  volume : Int
  position : Int
  cash : Price
  pnl : Price

/-- `OpenOrder`. -/
structure OpenOrder (Price : Type) where
  id : String
  side : BookSide
  price : Price
  remaining : Int
  deriving DecidableEq

/-- What the loop of `computeStats` changes. -/
structure StatsState (Price : Type) where
  stats : InsertionMap String (BotStat Price)
  openOrders : InsertionMap String (OpenOrder Price)
  lastPrice : Price

/-- What `computeStats` returns. -/
structure ComputedStats (Price : Type) where
  stats : InsertionMap String (BotStat Price)
  openOrders : List (OpenOrder Price)
  lastPrice : Price

/-- The strategy shown for a node. -/
def strategyOf (roster : List RosterEntry) (id : String) : String :=
  ((roster.find? fun entry => entry.id = id).map RosterEntry.strategy).getD
    (if id = "human" then "you" else id)

/-- Take a traded quantity from an open order, and drop the order when nothing remains. -/
def takeOpen (openOrders : InsertionMap String (OpenOrder Price)) (restingId : String)
    (quantity : Int) : InsertionMap String (OpenOrder Price) :=
  match openOrders.get restingId with
  | none => openOrders
  | some entry =>
    let remaining := SafeInteger.sub entry.remaining quantity
    let taken := openOrders.set restingId { entry with remaining := remaining }
    if remaining ≤ 0 then taken.delete restingId else taken

/-- What a batch's order does to the open orders: only those of `human` count. -/
def followOrder (openOrders : InsertionMap String (OpenOrder Price)) (wire : WireBatch Price) :
    InsertionMap String (OpenOrder Price) :=
  let o := wire.order
  if o.node = "human" then
    if wire.op = .submit ∧ (o.status = some .queued ∨ o.status = some .partialFill) then
      match o.side with
      | some side => openOrders.set o.id ⟨o.id, side, o.price, SafeInteger.sub o.qty o.filled⟩
      | none => openOrders
    else if wire.op = .cancel ∧ o.cancelOk then openOrders.delete o.id else openOrders
  else openOrders

section Compute

variable [Ring Price]

/-- The record that `get` makes for a new node. -/
def BotStat.fresh (roster : List RosterEntry) (id : String) : BotStat Price :=
  ⟨id, strategyOf roster id, 0, 0, 0, 0, 0, 0, 0⟩

/-- Modify the record of `get`. -/
def modifyStat (roster : List RosterEntry) (stats : InsertionMap String (BotStat Price))
    (id : String) (change : BotStat Price → BotStat Price) :
    InsertionMap String (BotStat Price) :=
  stats.modify id (.fresh roster id) change

/-- `dir`. -/
def WireTrade.dir (trade : WireTrade Price) : Int :=
  match trade.aggressorSide with
  | .bid => 1
  | .ask => -1

/-- Credit a trade to its aggressor's record. -/
def BotStat.aggressorFill (trade : WireTrade Price) (agg : BotStat Price) : BotStat Price :=
  { agg with
    fills := agg.fills + 1
    volume := agg.volume + trade.qty
    position := agg.position + trade.dir * trade.qty
    cash := agg.cash - ((trade.dir * trade.qty : Int) : Price) * trade.price }

/-- Credit a trade to its resting owner's record. -/
def BotStat.restingFill (trade : WireTrade Price) (rest : BotStat Price) : BotStat Price :=
  { rest with
    fills := rest.fills + 1
    volume := rest.volume + trade.qty
    position := rest.position - trade.dir * trade.qty
    cash := rest.cash + ((trade.dir * trade.qty : Int) : Price) * trade.price }

/-- Count a batch's order in its node's record. -/
def BotStat.count (wire : WireBatch Price) (me : BotStat Price) : BotStat Price :=
  if wire.op = .submit then { me with orders := me.orders + 1 }
  else if wire.order.cancelOk then { me with cancels := me.cancels + 1 } else me

/-- A trade of a batch. -/
def StatsState.trade (roster : List RosterEntry) (state : StatsState Price)
    (trade : WireTrade Price) : StatsState Price where
  stats := modifyStat roster
    (modifyStat roster state.stats trade.aggressorNode (.aggressorFill trade))
    trade.restingNode (.restingFill trade)
  openOrders := takeOpen state.openOrders trade.resting trade.qty
  lastPrice := trade.price

/-- A batch. -/
def StatsState.batch (roster : List RosterEntry) (state : StatsState Price)
    (wire : WireBatch Price) : StatsState Price :=
  let counted := { state with stats := modifyStat roster state.stats wire.order.node (.count wire) }
  let traded := wire.trades.foldl (StatsState.trade roster) counted
  { traded with openOrders := followOrder traded.openOrders wire }

/-- A frame: only batches count. -/
def StatsState.frame (roster : List RosterEntry) (state : StatsState Price) :
    Frame Price → StatsState Price
  | .batch wire => state.batch roster wire
  | .book _ _ => state

/-- The state before the first frame: a record for each node of the roster. -/
def StatsState.start (roster : List RosterEntry) : StatsState Price where
  stats := roster.foldl (fun stats entry => modifyStat roster stats entry.id id) .empty
  openOrders := .empty
  lastPrice := 0

/-- `pnl` at a last price. -/
def BotStat.settle (lastPrice : Price) (stat : BotStat Price) : BotStat Price :=
  { stat with pnl := stat.cash + (stat.position : Price) * lastPrice }

/-- `computeStats`. -/
def computeStats (frames : List (Frame Price)) (idx : Int) (roster : List RosterEntry) :
    ComputedStats Price :=
  let final := (frames.take (idx + 1).toNat).foldl (StatsState.frame roster) (.start roster)
  { stats := final.stats.mapValues (.settle final.lastPrice)
    openOrders := final.openOrders.entries.map Prod.snd
    lastPrice := final.lastPrice }

end Compute

/-! ### Batches only -/

section Batches

variable [Ring Price] (roster : List RosterEntry)

/-- The loop over frames is the loop over their batches. -/
theorem foldl_frame (frames : List (Frame Price)) (state : StatsState Price) :
    frames.foldl (StatsState.frame roster) state =
      (frames.filterMap Frame.batch?).foldl (StatsState.batch roster) state := by
  induction frames generalizing state with
  | nil => rfl
  | cons frame rest inductionHypothesis =>
    cases frame <;> exact inductionHypothesis _

/-- The state after batches. -/
def StatsState.after (batches : List (WireBatch Price)) : StatsState Price :=
  batches.foldl (StatsState.batch roster) (.start roster)

theorem StatsState.after_concat (batches : List (WireBatch Price)) (wire : WireBatch Price) :
    StatsState.after roster (batches ++ [wire]) =
      (StatsState.after roster batches).batch roster wire := by
  rw [StatsState.after, List.foldl_append]
  rfl

end Batches

/-! ### Accounts -/

/-- A measure of the records in which a trade moves an amount from one node to another and
nothing else counts. -/
structure Account [Ring Price] {Amount : Type} [AddCommGroup Amount]
    (measure : BotStat Price → Amount) (moved : WireTrade Price → Amount) : Prop where
  fresh : ∀ roster id, measure (.fresh roster id) = 0
  count : ∀ wire stat, measure (BotStat.count wire stat) = measure stat
  aggressor : ∀ trade stat, measure (BotStat.aggressorFill trade stat) = measure stat + moved trade
  resting : ∀ trade stat, measure (BotStat.restingFill trade stat) = measure stat + -moved trade

section Accounts

variable [Ring Price]

/-- Positions: the signed quantity of a trade goes to its aggressor. -/
theorem positionAccount :
    Account (BotStat.position : BotStat Price → Int) fun trade => trade.dir * trade.qty where
  fresh _ _ := rfl
  count wire stat := by
    unfold BotStat.count
    split_ifs <;> rfl
  aggressor _ _ := rfl
  resting _ _ := sub_eq_add_neg _ _

/-- Cash: the money of a trade goes the other way. -/
theorem cashAccount :
    Account (BotStat.cash : BotStat Price → Price)
      fun trade => -(((trade.dir * trade.qty : Int) : Price) * trade.price) where
  fresh _ _ := rfl
  count wire stat := by
    unfold BotStat.count
    split_ifs <;> rfl
  aggressor _ _ := sub_eq_add_neg _ _
  resting _ stat := by rw [neg_neg]; rfl

variable {Amount : Type} [AddCommGroup Amount] {measure : BotStat Price → Amount}
  {moved : WireTrade Price → Amount} (roster : List RosterEntry)

/-- What a trade moves to a node. -/
def WireTrade.movedTo (moved : WireTrade Price → Amount) (node : String)
    (trade : WireTrade Price) : Amount :=
  (if trade.aggressorNode = node then moved trade else 0) -
    if trade.restingNode = node then moved trade else 0

namespace Account

theorem count_add (account : Account measure moved) (wire : WireBatch Price)
    (stat : BotStat Price) : measure (BotStat.count wire stat) = measure stat + 0 :=
  (account.count wire stat).trans (add_zero _).symm

theorem trade_read (account : Account measure moved) (state : StatsState Price)
    (trade : WireTrade Price) (node : String) :
    (state.trade roster trade).stats.read measure node =
      state.stats.read measure node + trade.movedTo moved node := by
  rw [StatsState.trade, modifyStat, modifyStat,
    InsertionMap.read_modify (account.fresh _ _) (account.resting trade),
    InsertionMap.read_modify (account.fresh _ _) (account.aggressor trade), WireTrade.movedTo,
    add_assoc, sub_eq_add_neg]
  by_cases own : trade.restingNode = node <;> simp [own]

theorem trade_total (account : Account measure moved) (state : StatsState Price)
    (trade : WireTrade Price) :
    (state.trade roster trade).stats.total measure = state.stats.total measure := by
  rw [StatsState.trade, modifyStat, modifyStat,
    InsertionMap.total_modify (account.fresh _ _) (account.resting trade),
    InsertionMap.total_modify (account.fresh _ _) (account.aggressor trade), add_assoc,
    add_neg_cancel, add_zero]

/-- A batch moves what its trades move. -/
theorem batch_read (account : Account measure moved) (state : StatsState Price)
    (wire : WireBatch Price) (node : String) :
    (state.batch roster wire).stats.read measure node =
      state.stats.read measure node + (wire.trades.map (WireTrade.movedTo moved node)).sum := by
  have loop : ∀ (trades : List (WireTrade Price)) (state : StatsState Price),
      (trades.foldl (StatsState.trade roster) state).stats.read measure node =
        state.stats.read measure node + (trades.map (WireTrade.movedTo moved node)).sum := by
    intro trades
    induction trades with
    | nil => simp
    | cons trade rest inductionHypothesis =>
      intro state
      rw [List.foldl_cons, inductionHypothesis, account.trade_read, List.map_cons, List.sum_cons,
        add_assoc]
  have counted := InsertionMap.read_modify (account.fresh roster wire.order.node)
    (account.count_add wire) state.stats wire.order.node node
  rw [ite_self, add_zero] at counted
  rw [StatsState.batch, ← counted]
  exact loop _ _

/-- A batch keeps the sum over the nodes. -/
theorem batch_total (account : Account measure moved) (state : StatsState Price)
    (wire : WireBatch Price) :
    (state.batch roster wire).stats.total measure = state.stats.total measure := by
  have loop : ∀ (trades : List (WireTrade Price)) (state : StatsState Price),
      (trades.foldl (StatsState.trade roster) state).stats.total measure =
        state.stats.total measure := by
    intro trades
    induction trades with
    | nil => exact fun _ => rfl
    | cons trade rest inductionHypothesis =>
      intro state
      rw [List.foldl_cons, inductionHypothesis, account.trade_total]
  have counted := InsertionMap.total_modify (account.fresh roster wire.order.node)
    (account.count_add wire) state.stats wire.order.node
  rw [add_zero] at counted
  rw [StatsState.batch, ← counted]
  exact loop _ _

omit [Ring Price] in
theorem id_add (measure : BotStat Price → Amount) (stat : BotStat Price) :
    measure (id stat) = measure stat + 0 := (add_zero _).symm

/-- Before the first frame every record reads zero. -/
theorem start_read (account : Account measure moved) (node : String) :
    (StatsState.start roster).stats.read measure node = 0 := by
  have loop : ∀ (entries : List RosterEntry) (stats : InsertionMap String (BotStat Price)),
      (entries.foldl (fun stats entry => modifyStat roster stats entry.id id) stats).read
        measure node = stats.read measure node := by
    intro entries
    induction entries with
    | nil => exact fun _ => rfl
    | cons entry rest inductionHypothesis =>
      intro stats
      rw [List.foldl_cons, inductionHypothesis, modifyStat,
        InsertionMap.read_modify (account.fresh _ _) (id_add measure), ite_self, add_zero]
  exact loop roster .empty

theorem start_total (account : Account measure moved) :
    (StatsState.start roster).stats.total measure = 0 := by
  have loop : ∀ (entries : List RosterEntry) (stats : InsertionMap String (BotStat Price)),
      (entries.foldl (fun stats entry => modifyStat roster stats entry.id id) stats).total
        measure = stats.total measure := by
    intro entries
    induction entries with
    | nil => exact fun _ => rfl
    | cons entry rest inductionHypothesis =>
      intro stats
      rw [List.foldl_cons, inductionHypothesis, modifyStat,
        InsertionMap.total_modify (account.fresh _ _) (id_add measure), add_zero]
  exact loop roster .empty

/-- Batches move what their trades move. -/
theorem after_read (account : Account measure moved) (batches : List (WireBatch Price))
    (node : String) :
    (StatsState.after roster batches).stats.read measure node =
      ((batches.flatMap WireBatch.trades).map (WireTrade.movedTo moved node)).sum := by
  induction batches using List.reverseRecOn with
  | nil => exact account.start_read roster node
  | append_singleton batches wire inductionHypothesis =>
    rw [StatsState.after_concat, account.batch_read, inductionHypothesis, List.flatMap_append,
      List.map_append, List.sum_append, List.flatMap_singleton]

/-- The nodes' amounts sum to zero. -/
theorem after_total (account : Account measure moved) (batches : List (WireBatch Price)) :
    (StatsState.after roster batches).stats.total measure = 0 := by
  induction batches using List.reverseRecOn with
  | nil => exact account.start_total roster
  | append_singleton batches wire inductionHypothesis =>
    rw [StatsState.after_concat, account.batch_total, inductionHypothesis]

end Account

end Accounts

/-! ### What is returned -/

section Returned

variable [Ring Price] (frames : List (Frame Price)) (idx : Int) (roster : List RosterEntry)

/-- The batches among the frames up to an index. -/
def batchesUpTo : List (WireBatch Price) :=
  (frames.take (idx + 1).toNat).filterMap Frame.batch?

theorem computeStats_eq :
    computeStats frames idx roster =
      let final := StatsState.after roster (batchesUpTo frames idx)
      { stats := final.stats.mapValues (.settle final.lastPrice)
        openOrders := final.openOrders.entries.map Prod.snd
        lastPrice := final.lastPrice } := by
  simp only [computeStats, foldl_frame, StatsState.after, batchesUpTo]

/-- Settling changes no position and no cash. -/
theorem read_settle {Amount : Type} [AddCommMonoid Amount] {measure : BotStat Price → Amount}
    (lastPrice : Price) (kept : ∀ stat, measure (BotStat.settle lastPrice stat) = measure stat)
    (stats : InsertionMap String (BotStat Price)) (node : String) :
    (stats.mapValues (.settle lastPrice)).read measure node = stats.read measure node := by
  rw [InsertionMap.read, InsertionMap.get_mapValues, Option.map_map, InsertionMap.read]
  exact congrArg (fun read => (Option.map read _).getD 0) (funext kept)

theorem total_mapValues {Amount Value Other : Type} [AddCommMonoid Amount]
    (map : InsertionMap String Value) (change : Value → Other) (measure : Other → Amount) :
    (map.mapValues change).total measure = map.total fun value => measure (change value) := by
  rw [InsertionMap.total, InsertionMap.mapValues, List.map_map]
  rfl

/-- The profits sum to what the cash and the positions sum to. -/
theorem total_pnl (lastPrice : Price) (stats : InsertionMap String (BotStat Price)) :
    (stats.mapValues (.settle lastPrice)).total BotStat.pnl =
      stats.total BotStat.cash + ((stats.total BotStat.position : Int) : Price) * lastPrice := by
  rw [total_mapValues, InsertionMap.total, InsertionMap.total, InsertionMap.total]
  induction stats.entries with
  | nil => simp
  | cons entry rest inductionHypothesis =>
    simp only [List.map_cons, List.sum_cons, BotStat.settle] at inductionHypothesis ⊢
    rw [inductionHypothesis, Int.cast_add, add_mul]
    abel

end Returned

end MarketSandbox
