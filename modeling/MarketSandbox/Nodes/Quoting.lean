/-
This file places the market maker at the exchange, among other clients. An order
whose cancel did not reach the exchange is forgotten while it rests. In the runs
in which no such cancel fails, and no reply to a submit that came to rest is
lost, every order of the maker that rests between ticks is remembered.
-/

import MarketSandbox.Exchange.Cancellation
import MarketSandbox.Nodes.MarketMaker
import Mathlib.Tactic.NormNum

namespace MarketSandbox

open Transition

variable {Price : Type}

section Strategy

variable [Field Price] [LinearOrder Price] (params : MakerParams Price)

/-! ### The maker at the exchange -/

/-- The exchange with the ids its generator has given so far, the maker, and the ids that the
maker's submits were given. -/
structure Quoting (Price : Type) [LinearOrder Price] where
  book : OrderBook Price
  issued : List String
  maker : MarketMaker Price
  pc : MakerPc Price
  own : List String

/-- The steps. -/
inductive QuotingLabel (Price : Type) [LinearOrder Price]
  | others (record : Record Price)
  | marketData (event : MarketEvent Price)
  | tick
  | skip
  | reached (record : Record Price) (outcome : RpcOutcome (EngineResult Price))
  | unreached (message : String)
  | store

/-- The ids that an operation is given. -/
def Record.givenIds (record : Record Price) : List String :=
  (submitted [record]).map Order.orderId

/-- The engine performs an operation whose id, if it submits, is new from the generator. -/
def Quoting.Processes (source : Quoting Price) (record : Record Price) : Prop :=
  (bookSystem Price).step source.book record record.after ∧
    ∀ orderId ∈ record.givenIds, (∃ count, orderId = orderIdAt count) ∧ orderId ∉ source.issued

/-- The exchange, the maker and the other clients as a transition system. A call of the maker's
reaches the exchange or not; the reply to one that does may still be lost. -/
def quotingSystem : System (Quoting Price) (QuotingLabel Price) where
  initial state := state = ⟨.empty, [], .initial, .idle, []⟩
  step source label target :=
    match label with
    | .others record => source.Processes record ∧
        target = { source with
          book := record.after
          issued := source.issued ++ record.givenIds }
    | .marketData event => target = { source with maker := source.maker.onMarketData event }
    | .tick => source.pc = .idle ∧ target = { source with pc := source.maker.onTick params }
    | .skip => source.pc ≠ .idle ∧ (∀ mid bid ask, source.pc ≠ .store mid bid ask) ∧
        source.pc.call? params = none ∧
        target = { source with pc := source.pc.returned (.failed "") }
    | .reached record outcome => (∃ call orderId, source.pc.call? params = some call ∧
          record.operation = call.payload params orderId) ∧
        source.Processes record ∧
        (outcome = .answered record.result ∨ ∃ message, outcome = .failed message) ∧
        target = { source with
          book := record.after
          issued := source.issued ++ record.givenIds
          pc := source.pc.returned outcome
          own := source.own ++ record.givenIds }
    | .unreached message => source.pc.call? params ≠ none ∧
        target = { source with pc := source.pc.returned (.failed message) }
    | .store => ∃ mid bidResult askResult, source.pc = .store mid bidResult askResult ∧
        target = { source with
          maker := source.maker.stored mid bidResult askResult
          pc := .idle }

/-- The condition on a step: no cancel of a resting order fails to reach the exchange, and no reply
to a submit whose order came to rest is lost. -/
def CallKept (source : Quoting Price) : QuotingLabel Price → Prop
  | .unreached _ => ∀ orderId, source.pc.call? params = some (.cancel orderId) →
      orderId ∉ source.book.restingIds
  | .reached record (.failed _) =>
      ∀ order, record.operation = .submit order →
        ¬ OrderBook.Rests order (source.book.filledBy (BookSide.ofOrder order.side) order)
  | _ => True

/-! ### What the maker remembers -/

/-- The ids that the maker knows of at a point of `onTick`. -/
def MakerPc.remembered (maker : MarketMaker Price) : MakerPc Price → List String
  | .idle => [maker.bidOrderId, maker.askOrderId]
  | .cancelBid _ oldBid oldAsk => [oldBid, oldAsk]
  | .cancelAsk _ oldAsk => [oldAsk]
  | .submitBid _ => []
  | .submitAsk _ bidResult => [bidResult.quoteId]
  | .store _ bidResult askResult => [bidResult.quoteId, askResult.quoteId]

/-- The book is wired and rests only ids that were given, and the maker remembers its orders that
rest. -/
structure Remembers (state : Quoting Price) : Prop where
  wired : state.book.Wired
  known : ∀ orderId ∈ state.book.restingIds, orderId ∈ state.issued
  named : ∀ orderId ∈ state.issued, orderId ≠ ""
  ownIssued : ∀ orderId ∈ state.own, orderId ∈ state.issued
  remembered : ∀ orderId ∈ state.own, orderId ∈ state.book.restingIds →
    orderId ∈ state.pc.remembered state.maker

theorem orderIdAt_ne_empty (count : Nat) : orderIdAt count ≠ "" := by
  intro empty
  have chars := congrArg String.toList empty
  rw [orderIdAt, String.toList_append] at chars
  cases chars

theorem Record.mem_givenIds {record : Record Price} {orderId : String} :
    orderId ∈ record.givenIds ↔
      ∃ order, record.operation = .submit order ∧ order.orderId = orderId := by
  rw [givenIds, List.mem_map]
  refine exists_congr fun order => and_congr_left fun _ => ?_
  have last : order ∈ submitted ([] ++ [record]) ↔
      order ∈ submitted [] ∨ record.operation = .submit order := mem_submitted_append
  exact last.trans (or_iff_right (List.not_mem_nil (a := order)))

section Processes

variable {source : Quoting Price} {record : Record Price}

theorem Quoting.Processes.wired (processes : source.Processes record)
    (remembers : Remembers source) : record.after.Wired := by
  refine remembers.wired.step processes.1 (fun order isSubmit rests => ?_) (.of_linear _)
  exact (processes.2 _ (Record.mem_givenIds.mpr ⟨order, isSubmit, rfl⟩)).2
    (remembers.known _ rests)

theorem Quoting.Processes.known (processes : source.Processes record)
    (remembers : Remembers source) :
    ∀ orderId ∈ record.after.restingIds, orderId ∈ source.issued ++ record.givenIds := by
  intro orderId rests
  rcases restingIds_after remembers.wired processes.1 rests with before | ⟨order, isSubmit, rfl, _⟩
  · exact List.mem_append_left _ (remembers.known orderId before)
  · exact List.mem_append_right _ (Record.mem_givenIds.mpr ⟨order, isSubmit, rfl⟩)

theorem Quoting.Processes.named (processes : source.Processes record)
    (remembers : Remembers source) :
    ∀ orderId ∈ source.issued ++ record.givenIds, orderId ≠ "" := by
  intro orderId member
  rcases List.mem_append.mp member with old | new
  · exact remembers.named orderId old
  · obtain ⟨⟨count, rfl⟩, _⟩ := processes.2 orderId new
    exact orderIdAt_ne_empty count

/-- What rests of the ids given before a step rested before it. -/
theorem Quoting.Processes.rested (processes : source.Processes record)
    (remembers : Remembers source) {orderId : String} (issued : orderId ∈ source.issued)
    (rests : orderId ∈ record.after.restingIds) : orderId ∈ source.book.restingIds := by
  rcases restingIds_after remembers.wired processes.1 rests with before | ⟨order, isSubmit, rfl, _⟩
  · exact before
  · exact absurd issued
      (processes.2 _ (Record.mem_givenIds.mpr ⟨order, isSubmit, rfl⟩)).2

/-- The id that a submit's answer leaves to remember is that of its order, if it rests. -/
theorem Quoting.Processes.quoteId (processes : source.Processes record)
    (remembers : Remembers source) {outcome : RpcOutcome (EngineResult Price)}
    (ends : outcome = .answered record.result ∨ ∃ message, outcome = .failed message)
    (kept : CallKept params source (.reached record outcome)) {orderId : String}
    (given : orderId ∈ record.givenIds) (rests : orderId ∈ record.after.restingIds) :
    orderId = (ExchangeClient.submitOrder outcome).quoteId := by
  obtain ⟨order, isSubmit, rfl⟩ := Record.mem_givenIds.mp given
  have status : record.result.status = .queued ∨ record.result.status = .partialFill := by
    rcases restingIds_after remembers.wired processes.1 rests with before | ⟨_, _, _, status⟩
    · exact absurd (remembers.known _ before) (processes.2 _ given).2
    · exact status
  rcases ends with rfl | ⟨message, rfl⟩
  · rw [ExchangeClient.submitOrder, SubmitResult.quoteId, if_pos status]
    exact (submit_orderId processes.1 isSubmit).symm
  · have effect := submit_effect remembers.wired processes.1 isSubmit
    exact absurd (effect.rests_iff.mpr status) (kept order isSubmit)

end Processes

variable {params} {source : Quoting Price}

theorem Remembers.tick (remembers : Remembers source) (idle : source.pc = .idle) :
    Remembers { source with pc := source.maker.onTick params } := by
  refine ⟨remembers.wired, remembers.known, remembers.named, remembers.ownIssued, ?_⟩
  intro orderId own rests
  have remembered := remembers.remembered orderId own rests
  rw [idle] at remembered
  show orderId ∈ (source.maker.onTick params).remembered source.maker
  rw [MarketMaker.onTick]
  split_ifs
  · exact remembered
  · exact remembered

omit [Field Price] in
theorem Remembers.marketData (remembers : Remembers source) (event : MarketEvent Price) :
    Remembers { source with maker := source.maker.onMarketData event } := by
  refine ⟨remembers.wired, remembers.known, remembers.named, remembers.ownIssued, ?_⟩
  intro orderId own rests
  have remembered := remembers.remembered orderId own rests
  have same : source.pc.remembered (source.maker.onMarketData event) =
      source.pc.remembered source.maker := by
    cases source.pc <;> cases event <;> rfl
  rwa [← same] at remembered

theorem Remembers.others (remembers : Remembers source) {record : Record Price}
    (processes : source.Processes record) :
    Remembers { source with book := record.after, issued := source.issued ++ record.givenIds } where
  wired := processes.wired remembers
  known := processes.known remembers
  named := processes.named remembers
  ownIssued orderId own := List.mem_append_left _ (remembers.ownIssued orderId own)
  remembered orderId own rests := remembers.remembered orderId own
    (processes.rested remembers (remembers.ownIssued orderId own) rests)

/-- A cancel that reaches the exchange leaves the other ids to remember. -/
theorem Remembers.cancelled (remembers : Remembers source) {record : Record Price}
    (processes : source.Processes record) {orderId nodeId : String}
    (isCancel : record.operation = .cancel orderId nodeId) {pc : MakerPc Price}
    (rest : ∀ other ∈ source.pc.remembered source.maker, other ≠ orderId →
      other ∈ pc.remembered source.maker) :
    Remembers { source with
      book := record.after
      issued := source.issued ++ record.givenIds
      pc := pc
      own := source.own ++ record.givenIds } := by
  have noIds : record.givenIds = [] := by
    refine List.eq_nil_iff_forall_not_mem.mpr fun given member => ?_
    obtain ⟨order, isSubmit, _⟩ := Record.mem_givenIds.mp member
    rw [isCancel] at isSubmit
    cases isSubmit
  have others := remembers.others processes
  refine ⟨others.wired, others.known, others.named, ?_, ?_⟩
  · rw [noIds, List.append_nil, List.append_nil]
    exact remembers.ownIssued
  · intro other own rests
    have old : other ∈ source.own ++ record.givenIds := own
    rw [noIds, List.append_nil] at old
    refine rest other (others.remembered other old rests) fun same => ?_
    exact restingIds_after_cancel remembers.wired processes.1 isCancel (same ▸ rests)

/-- A submit that reaches the exchange leaves its answer's id to remember. -/
theorem Remembers.submitted (remembers : Remembers source) {record : Record Price}
    (processes : source.Processes record) {outcome : RpcOutcome (EngineResult Price)}
    (ends : outcome = .answered record.result ∨ ∃ message, outcome = .failed message)
    (kept : CallKept params source (.reached record outcome)) {pc : MakerPc Price}
    (rest : ∀ other ∈ source.pc.remembered source.maker, other ∈ pc.remembered source.maker)
    (quote : (ExchangeClient.submitOrder outcome).quoteId ∈ pc.remembered source.maker) :
    Remembers { source with
      book := record.after
      issued := source.issued ++ record.givenIds
      pc := pc
      own := source.own ++ record.givenIds } := by
  have others := remembers.others processes
  refine ⟨others.wired, others.known, others.named, ?_, ?_⟩
  · intro orderId own
    rcases List.mem_append.mp own with old | given
    · exact List.mem_append_left _ (remembers.ownIssued orderId old)
    · exact List.mem_append_right _ given
  · intro orderId own rests
    rcases List.mem_append.mp own with old | given
    · exact rest orderId (others.remembered orderId old rests)
    · rw [processes.quoteId params remembers ends kept given rests]
      exact quote

omit [Field Price] in
/-- Going on without a call that would cancel nothing leaves the other ids to remember. -/
theorem Remembers.forgot (remembers : Remembers source) {pc : MakerPc Price}
    (rest : ∀ other ∈ source.pc.remembered source.maker, other ∈ source.book.restingIds →
      other ≠ "" → other ∈ pc.remembered source.maker) :
    Remembers { source with pc := pc } := by
  refine ⟨remembers.wired, remembers.known, remembers.named, remembers.ownIssued, ?_⟩
  intro orderId own rests
  exact rest orderId (remembers.remembered orderId own rests) rests
    (remembers.named orderId (remembers.ownIssued orderId own))

theorem Remembers.skip (remembers : Remembers source) (notIdle : source.pc ≠ .idle)
    (notStore : ∀ mid bid ask, source.pc ≠ .store mid bid ask)
    (noCall : source.pc.call? params = none) (outcome : RpcOutcome (EngineResult Price)) :
    Remembers { source with pc := source.pc.returned outcome } := by
  refine remembers.forgot fun other member _ named => ?_
  cases isPc : source.pc with
  | idle => exact absurd isPc notIdle
  | cancelBid mid oldBid oldAsk =>
    rw [isPc, MakerPc.call?] at noCall
    rw [isPc] at member
    split_ifs at noCall with none
    exact (List.mem_cons.mp member).resolve_left fun same => named (same.trans none)
  | cancelAsk mid oldAsk =>
    rw [isPc, MakerPc.call?] at noCall
    rw [isPc] at member
    split_ifs at noCall with none
    exact absurd ((List.mem_singleton.mp member).trans none) named
  | submitBid mid =>
    rw [isPc] at noCall
    cases noCall
  | submitAsk mid bidResult =>
    rw [isPc] at noCall
    cases noCall
  | store mid bidResult askResult => exact absurd isPc (notStore _ _ _)

/-- A cancel that reaches the exchange leaves the ids of the later cancels to remember. -/
theorem Remembers.reached_cancel (remembers : Remembers source) {record : Record Price}
    {outcome : RpcOutcome (EngineResult Price)} {oldOrderId orderId : String}
    (isCall : source.pc.call? params = some (.cancel oldOrderId))
    (operation : record.operation = (MakerCall.cancel oldOrderId).payload params orderId)
    (processes : source.Processes record) :
    Remembers { source with
      book := record.after
      issued := source.issued ++ record.givenIds
      pc := source.pc.returned outcome
      own := source.own ++ record.givenIds } := by
  refine remembers.cancelled processes operation fun other member differs => ?_
  cases isPc : source.pc with
  | idle =>
    rw [isPc] at isCall
    cases isCall
  | cancelBid mid oldBid oldAsk =>
    rw [isPc, MakerPc.call?] at isCall
    rw [isPc] at member
    split_ifs at isCall
    cases isCall
    exact (List.mem_cons.mp member).resolve_left differs
  | cancelAsk mid oldAsk =>
    rw [isPc, MakerPc.call?] at isCall
    rw [isPc] at member
    split_ifs at isCall
    cases isCall
    exact absurd (List.mem_singleton.mp member) differs
  | submitBid mid =>
    rw [isPc] at isCall
    cases isCall
  | submitAsk mid bidResult =>
    rw [isPc] at isCall
    cases isCall
  | store mid bidResult askResult =>
    rw [isPc] at isCall
    cases isCall

/-- A submit that reaches the exchange adds its id to what the maker remembers. -/
theorem Remembers.reached_submit (remembers : Remembers source) {record : Record Price}
    {outcome : RpcOutcome (EngineResult Price)} {side : Int} {price : Price}
    (isCall : source.pc.call? params = some (.submit side price))
    (processes : source.Processes record)
    (ends : outcome = .answered record.result ∨ ∃ message, outcome = .failed message)
    (kept : CallKept params source (.reached record outcome)) :
    Remembers { source with
      book := record.after
      issued := source.issued ++ record.givenIds
      pc := source.pc.returned outcome
      own := source.own ++ record.givenIds } := by
  have quote : (ExchangeClient.submitOrder outcome).quoteId ∈
      (source.pc.returned outcome).remembered source.maker ∧
      ∀ other ∈ source.pc.remembered source.maker,
        other ∈ (source.pc.returned outcome).remembered source.maker := by
    cases isPc : source.pc with
    | idle =>
      rw [isPc] at isCall
      cases isCall
    | cancelBid mid oldBid oldAsk =>
      rw [isPc, MakerPc.call?] at isCall
      split_ifs at isCall
      cases isCall
    | cancelAsk mid oldAsk =>
      rw [isPc, MakerPc.call?] at isCall
      split_ifs at isCall
      cases isCall
    | submitBid mid => exact ⟨List.mem_cons_self, fun other member => by cases member⟩
    | submitAsk mid bidResult =>
      refine ⟨List.mem_cons_of_mem _ List.mem_cons_self, fun other member => ?_⟩
      exact List.mem_cons.mpr (.inl (List.mem_singleton.mp member))
    | store mid bidResult askResult =>
      rw [isPc] at isCall
      cases isCall
  exact remembers.submitted processes ends kept quote.2 quote.1

/-- A call that fails before the exchange forgets nothing, if the condition holds. -/
theorem Remembers.unreached (remembers : Remembers source) {message : String}
    (kept : CallKept params source (.unreached message))
    (isCall : source.pc.call? params ≠ none) :
    Remembers { source with pc := source.pc.returned (.failed message) } := by
  refine remembers.forgot fun other member rests named => ?_
  cases isPc : source.pc with
  | idle =>
    rw [isPc] at isCall
    exact absurd rfl isCall
  | cancelBid mid oldBid oldAsk =>
    rw [isPc] at member
    refine (List.mem_cons.mp member).resolve_left fun same => ?_
    refine kept other ?_ rests
    rw [isPc, MakerPc.call?, if_neg (same ▸ named), same]
  | cancelAsk mid oldAsk =>
    rw [isPc] at member
    have same := List.mem_singleton.mp member
    refine absurd rests (kept other ?_)
    rw [isPc, MakerPc.call?, if_neg (same ▸ named), same]
  | submitBid mid =>
    rw [isPc] at member
    cases member
  | submitAsk mid bidResult =>
    rw [isPc] at member
    exact List.mem_cons.mpr (.inl (List.mem_singleton.mp member))
  | store mid bidResult askResult =>
    rw [isPc] at isCall
    exact absurd rfl isCall

omit [Field Price] in
theorem Remembers.store (remembers : Remembers source) {mid : Price}
    {bidResult askResult : SubmitResult Price}
    (isStore : source.pc = .store mid bidResult askResult) :
    Remembers { source with
      maker := source.maker.stored mid bidResult askResult
      pc := .idle } := by
  refine ⟨remembers.wired, remembers.known, remembers.named, remembers.ownIssued, ?_⟩
  intro orderId own rests
  have remembered := remembers.remembered orderId own rests
  rwa [isStore] at remembered

theorem Remembers.step {label : QuotingLabel Price} {target : Quoting Price}
    (remembers : Remembers source) (kept : CallKept params source label)
    (step : (quotingSystem params).step source label target) : Remembers target := by
  cases label with
  | others record =>
    obtain ⟨processes, rfl⟩ := step
    exact remembers.others processes
  | marketData event =>
    obtain rfl := step
    exact remembers.marketData event
  | tick =>
    obtain ⟨idle, rfl⟩ := step
    exact remembers.tick idle
  | skip =>
    obtain ⟨notIdle, notStore, noCall, rfl⟩ := step
    exact remembers.skip notIdle notStore noCall _
  | reached record outcome =>
    obtain ⟨⟨call, orderId, isCall, operation⟩, processes, ends, rfl⟩ := step
    cases call with
    | cancel oldOrderId => exact remembers.reached_cancel isCall operation processes
    | submit side price => exact remembers.reached_submit isCall processes ends kept
  | unreached message =>
    obtain ⟨isCall, rfl⟩ := step
    exact remembers.unreached kept isCall
  | store =>
    obtain ⟨mid, bidResult, askResult, isStore, rfl⟩ := step
    exact remembers.store isStore

theorem remembers_initial : Remembers (⟨.empty, [], .initial, .idle, []⟩ : Quoting Price) where
  wired := OrderBook.Valid.empty.wired
  known _ rests := nomatch rests
  named _ member := nomatch member
  ownIssued _ member := nomatch member
  remembered _ member := nomatch member

end Strategy

namespace Sample

def makerParams : MakerParams ℚ := ⟨"mm-1", 2, 10, 1 / 500, 100⟩

/-- The maker's first two quotes rest. -/
def makerBid : Record ℚ :=
  submitRecord .empty 1 ⟨.bid, .limit, 99, 10, "ORD-0", "mm-1"⟩

def makerAsk : Record ℚ :=
  submitRecord makerBid.after 2 ⟨.ask, .limit, 101, 10, "ORD-1", "mm-1"⟩

/-- The maker when it has quoted at a mid. -/
def quoted (lastTradePrice : Option ℚ) (bidOrderId askOrderId : String) (mid : ℚ) :
    MarketMaker ℚ :=
  ⟨lastTradePrice, none, none, bidOrderId, askOrderId, mid, true⟩

/-- The runs of the sample maker whose steps meet the condition. -/
abbrev KeptRun (labels : List (QuotingLabel ℚ)) (state : Quoting ℚ) : Prop :=
  Run ((quotingSystem makerParams).restrict (CallKept makerParams)) labels state

theorem makerBid_quote :
    (ExchangeClient.submitOrder (.answered makerBid.result)).quoteId = "ORD-0" := by decide

theorem makerAsk_quote :
    (ExchangeClient.submitOrder (.answered makerAsk.result)).quoteId = "ORD-1" := by decide

/-- A submit under the generator's next id is processed. -/
theorem submitted_processes {state : Quoting ℚ} {timestamp : Nat} {order : Order ℚ} (count : Nat)
    (generated : order.orderId = orderIdAt count) (new : order.orderId ∉ state.issued) :
    state.Processes (submitRecord state.book timestamp order) := by
  refine ⟨submitRecord_step _ _ _, fun orderId member => ?_⟩
  obtain rfl := List.mem_singleton.mp member
  exact ⟨⟨count, generated⟩, new⟩

theorem firstRequote :
    KeptRun [.tick, .skip, .skip, .reached makerBid (.answered makerBid.result),
        .reached makerAsk (.answered makerAsk.result), .store]
      ⟨makerAsk.after, ["ORD-0", "ORD-1"], quoted none "ORD-0" "ORD-1" 100, .idle,
        ["ORD-0", "ORD-1"]⟩ := by
  have start : KeptRun [] ⟨.empty, [], .initial, .idle, []⟩ := .start rfl
  have ticked : KeptRun ([] ++ [QuotingLabel.tick])
      ⟨.empty, [], .initial, .cancelBid 100 "" "", []⟩ :=
    start.next ⟨trivial, rfl, rfl⟩
  have skipped : KeptRun (_ ++ [QuotingLabel.skip]) ⟨.empty, [], .initial, .cancelAsk 100 "", []⟩ :=
    ticked.next ⟨trivial, by simp, by simp, rfl, rfl⟩
  have cancelled : KeptRun (_ ++ [QuotingLabel.skip]) ⟨.empty, [], .initial, .submitBid 100, []⟩ :=
    skipped.next ⟨trivial, by simp, by simp, rfl, rfl⟩
  have bid : KeptRun (_ ++ [QuotingLabel.reached makerBid (.answered makerBid.result)])
      ⟨makerBid.after, ["ORD-0"], .initial,
        .submitAsk 100 (ExchangeClient.submitOrder (.answered makerBid.result)), ["ORD-0"]⟩ :=
    cancelled.next ⟨trivial,
      ⟨.submit 1 99, "ORD-0", by norm_num [MakerPc.call?, makerParams], rfl⟩,
      submitted_processes 0 rfl (by decide), .inl rfl, rfl⟩
  have ask : KeptRun (_ ++ [QuotingLabel.reached makerAsk (.answered makerAsk.result)])
      ⟨makerAsk.after, ["ORD-0", "ORD-1"], .initial,
        .store 100 (ExchangeClient.submitOrder (.answered makerBid.result))
          (ExchangeClient.submitOrder (.answered makerAsk.result)), ["ORD-0", "ORD-1"]⟩ :=
    bid.next ⟨trivial,
      ⟨.submit 2 101, "ORD-1", by norm_num [MakerPc.call?, makerParams], rfl⟩,
      submitted_processes 1 rfl (by decide), .inl rfl, rfl⟩
  have maker : MarketMaker.initial.stored 100
      (ExchangeClient.submitOrder (.answered makerBid.result))
      (ExchangeClient.submitOrder (.answered makerAsk.result)) =
        quoted none "ORD-0" "ORD-1" 100 := by
    rw [MarketMaker.stored, makerBid_quote, makerAsk_quote]
    rfl
  rw [← maker]
  exact ask.next ⟨trivial, _, _, _, rfl, rfl⟩

/-- Another client lifts the ask; the exchange publishes the trade and the top of book. -/
def lift : Record ℚ :=
  submitRecord makerAsk.after 3 ⟨.bid, .limit, 101, 10, "ORD-2", "mom-1"⟩

def liftTrade : MarketEvent ℚ :=
  .trade ⟨"TRD-0", 101, 10, .bid, "ORD-2", "ORD-1", 3⟩

def liftTop : MarketEvent ℚ := .topOfBook ⟨some 99, some 10, none, none, 3⟩

/-- The cancel of the lifted ask, and the quotes of the second requote. -/
def liftedCancel : Record ℚ := cancelRecord lift.after 4 "ORD-1" "mm-1" (by decide)

def raisedBid : Record ℚ := submitRecord liftedCancel.after 5
  ⟨.bid, .limit, 100, 10, "ORD-3", "mm-1"⟩

def raisedAsk : Record ℚ := submitRecord raisedBid.after 6
  ⟨.ask, .limit, 102, 10, "ORD-4", "mm-1"⟩

theorem raisedBid_quote :
    (ExchangeClient.submitOrder (.answered raisedBid.result)).quoteId = "ORD-3" := by decide

theorem raisedAsk_quote :
    (ExchangeClient.submitOrder (.answered raisedAsk.result)).quoteId = "ORD-4" := by decide

example : lift.events = [liftTrade, liftTop] := by decide

theorem secondTick :
    (MarketMaker.onTick makerParams ⟨some 101, some 99, none, "ORD-0", "ORD-1", 100, true⟩ :
      MakerPc ℚ) = .cancelBid 101 "ORD-0" "ORD-1" := by
  have moved : MarketMaker.NeedsQuote makerParams
      ⟨some 101, some 99, none, "ORD-0", "ORD-1", 100, true⟩ 101 := by
    right
    norm_num [makerParams]
  exact if_pos moved

/-- The maker when it has seen the lift. -/
def lifted : MarketMaker ℚ := ⟨some 101, some 99, none, "ORD-0", "ORD-1", 100, true⟩

/-- The tick after the lift begins the second requote. -/
theorem requoting : ∃ labels, KeptRun labels
    ⟨lift.after, ["ORD-0", "ORD-1", "ORD-2"], lifted, .cancelBid 101 "ORD-0" "ORD-1",
      ["ORD-0", "ORD-1"]⟩ := by
  have lifting : KeptRun (_ ++ [QuotingLabel.others lift]) ⟨lift.after, ["ORD-0", "ORD-1", "ORD-2"],
      quoted none "ORD-0" "ORD-1" 100, .idle, ["ORD-0", "ORD-1"]⟩ :=
    firstRequote.next ⟨trivial, submitted_processes 2 rfl (by decide), rfl⟩
  have traded : KeptRun (_ ++ [QuotingLabel.marketData liftTrade])
      ⟨lift.after, ["ORD-0", "ORD-1", "ORD-2"],
      quoted (some 101) "ORD-0" "ORD-1" 100, .idle, ["ORD-0", "ORD-1"]⟩ :=
    lifting.next ⟨trivial, rfl⟩
  have topped : KeptRun (_ ++ [QuotingLabel.marketData liftTop])
      ⟨lift.after, ["ORD-0", "ORD-1", "ORD-2"],
      lifted, .idle, ["ORD-0", "ORD-1"]⟩ := traded.next ⟨trivial, rfl⟩
  have ticked : KeptRun (_ ++ [QuotingLabel.tick]) ⟨lift.after, ["ORD-0", "ORD-1", "ORD-2"],
      lifted, .cancelBid 101 "ORD-0" "ORD-1", ["ORD-0", "ORD-1"]⟩ :=
    topped.next ⟨trivial, rfl, by rw [lifted, secondTick]⟩
  exact ⟨_, ticked⟩

/-- Both cancels of the second requote are answered, and so are its submits. -/
def bidCancel : Record ℚ := cancelRecord lift.after 4 "ORD-0" "mm-1" (by decide)

def askCancel : Record ℚ := cancelRecord bidCancel.after 5 "ORD-1" "mm-1" (by decide)

def movedBid : Record ℚ := submitRecord askCancel.after 6
  ⟨.bid, .limit, 100, 10, "ORD-3", "mm-1"⟩

def movedAsk : Record ℚ := submitRecord movedBid.after 7
  ⟨.ask, .limit, 102, 10, "ORD-4", "mm-1"⟩

theorem movedBid_quote :
    (ExchangeClient.submitOrder (.answered movedBid.result)).quoteId = "ORD-3" := by decide

theorem movedAsk_quote :
    (ExchangeClient.submitOrder (.answered movedAsk.result)).quoteId = "ORD-4" := by decide

theorem keptRequote : ∃ labels, KeptRun labels
    ⟨movedAsk.after, ["ORD-0", "ORD-1", "ORD-2", "ORD-3", "ORD-4"],
      ⟨some 101, some 99, none, "ORD-3", "ORD-4", 101, true⟩, .idle,
      ["ORD-0", "ORD-1", "ORD-3", "ORD-4"]⟩ := by
  obtain ⟨labels, ticked⟩ := requoting
  have withdrawn : KeptRun (_ ++ [QuotingLabel.reached bidCancel (.answered bidCancel.result)])
      ⟨bidCancel.after, ["ORD-0", "ORD-1", "ORD-2"], lifted, .cancelAsk 101 "ORD-1",
        ["ORD-0", "ORD-1"]⟩ :=
    ticked.next ⟨trivial, ⟨.cancel "ORD-0", "", by simp [MakerPc.call?], rfl⟩,
      ⟨cancelRecord_step _ _ _ _ _, nofun⟩, .inl rfl, rfl⟩
  have cancelled : KeptRun (_ ++ [QuotingLabel.reached askCancel (.answered askCancel.result)])
      ⟨askCancel.after, ["ORD-0", "ORD-1", "ORD-2"], lifted, .submitBid 101,
        ["ORD-0", "ORD-1"]⟩ :=
    withdrawn.next ⟨trivial, ⟨.cancel "ORD-1", "", by simp [MakerPc.call?], rfl⟩,
      ⟨cancelRecord_step _ _ _ _ _, nofun⟩, .inl rfl, rfl⟩
  have bid : KeptRun (_ ++ [QuotingLabel.reached movedBid (.answered movedBid.result)])
      ⟨movedBid.after, ["ORD-0", "ORD-1", "ORD-2", "ORD-3"], lifted,
        .submitAsk 101 (ExchangeClient.submitOrder (.answered movedBid.result)),
        ["ORD-0", "ORD-1", "ORD-3"]⟩ :=
    cancelled.next ⟨trivial,
      ⟨.submit 1 100, "ORD-3", by norm_num [MakerPc.call?, makerParams], rfl⟩,
      submitted_processes 3 rfl (by decide), .inl rfl, rfl⟩
  have ask : KeptRun (_ ++ [QuotingLabel.reached movedAsk (.answered movedAsk.result)])
      ⟨movedAsk.after, ["ORD-0", "ORD-1", "ORD-2", "ORD-3", "ORD-4"], lifted,
        .store 101 (ExchangeClient.submitOrder (.answered movedBid.result))
          (ExchangeClient.submitOrder (.answered movedAsk.result)),
        ["ORD-0", "ORD-1", "ORD-3", "ORD-4"]⟩ :=
    bid.next ⟨trivial,
      ⟨.submit 2 102, "ORD-4", by norm_num [MakerPc.call?, makerParams], rfl⟩,
      submitted_processes 4 rfl (by decide), .inl rfl, rfl⟩
  have maker : lifted.stored 101
      (ExchangeClient.submitOrder (.answered movedBid.result))
      (ExchangeClient.submitOrder (.answered movedAsk.result)) =
        ⟨some 101, some 99, none, "ORD-3", "ORD-4", 101, true⟩ := by
    rw [MarketMaker.stored, movedBid_quote, movedAsk_quote]
    rfl
  have stored : KeptRun (_ ++ [QuotingLabel.store])
      ⟨movedAsk.after, ["ORD-0", "ORD-1", "ORD-2", "ORD-3", "ORD-4"],
        lifted.stored 101 (ExchangeClient.submitOrder (.answered movedBid.result))
          (ExchangeClient.submitOrder (.answered movedAsk.result)), .idle,
        ["ORD-0", "ORD-1", "ORD-3", "ORD-4"]⟩ :=
    ask.next ⟨trivial, _, _, _, rfl, rfl⟩
  rw [maker] at stored
  exact ⟨_, stored⟩

/-- The maker's runs. -/
abbrev MakerRun (labels : List (QuotingLabel ℚ)) (state : Quoting ℚ) : Prop :=
  Run (quotingSystem makerParams) labels state

/-- The second requote, whose first cancel does not reach the exchange. -/
theorem secondRequote : ∃ labels, MakerRun (labels ++ [QuotingLabel.store])
    ⟨raisedAsk.after, ["ORD-0", "ORD-1", "ORD-2", "ORD-3", "ORD-4"],
      ⟨some 101, some 99, none, "ORD-3", "ORD-4", 101, true⟩, .idle,
      ["ORD-0", "ORD-1", "ORD-3", "ORD-4"]⟩ := by
  obtain ⟨_, ticked⟩ := requoting
  have failed : MakerRun (_ ++ [QuotingLabel.unreached "unavailable"]) ⟨lift.after,
      ["ORD-0", "ORD-1", "ORD-2"], lifted, .cancelAsk 101 "ORD-1", ["ORD-0", "ORD-1"]⟩ :=
    ticked.of_restrict.next ⟨by simp [MakerPc.call?], rfl⟩
  have cancelled : MakerRun
      (_ ++ [QuotingLabel.reached liftedCancel (.answered liftedCancel.result)])
      ⟨liftedCancel.after, ["ORD-0", "ORD-1", "ORD-2"], lifted, .submitBid 101,
        ["ORD-0", "ORD-1"]⟩ :=
    failed.next ⟨⟨.cancel "ORD-1", "", by simp [MakerPc.call?], rfl⟩,
      ⟨cancelRecord_step _ _ _ _ _, nofun⟩, .inl rfl, rfl⟩
  have bid : MakerRun (_ ++ [QuotingLabel.reached raisedBid (.answered raisedBid.result)])
      ⟨raisedBid.after, ["ORD-0", "ORD-1", "ORD-2", "ORD-3"], lifted,
        .submitAsk 101 (ExchangeClient.submitOrder (.answered raisedBid.result)),
        ["ORD-0", "ORD-1", "ORD-3"]⟩ :=
    cancelled.next ⟨⟨.submit 1 100, "ORD-3", by norm_num [MakerPc.call?, makerParams], rfl⟩,
      submitted_processes 3 rfl (by decide), .inl rfl, rfl⟩
  have ask : MakerRun (_ ++ [QuotingLabel.reached raisedAsk (.answered raisedAsk.result)])
      ⟨raisedAsk.after, ["ORD-0", "ORD-1", "ORD-2", "ORD-3", "ORD-4"], lifted,
        .store 101 (ExchangeClient.submitOrder (.answered raisedBid.result))
          (ExchangeClient.submitOrder (.answered raisedAsk.result)),
        ["ORD-0", "ORD-1", "ORD-3", "ORD-4"]⟩ :=
    bid.next ⟨⟨.submit 2 102, "ORD-4", by norm_num [MakerPc.call?, makerParams], rfl⟩,
      submitted_processes 4 rfl (by decide), .inl rfl, rfl⟩
  have maker : lifted.stored 101
      (ExchangeClient.submitOrder (.answered raisedBid.result))
      (ExchangeClient.submitOrder (.answered raisedAsk.result)) =
        ⟨some 101, some 99, none, "ORD-3", "ORD-4", 101, true⟩ := by
    rw [MarketMaker.stored, raisedBid_quote, raisedAsk_quote]
    rfl
  rw [← maker]
  exact ⟨_, ask.next ⟨_, _, _, rfl, rfl⟩⟩

end Sample

/-- In every run whose steps meet the condition, every order of the maker that rests between ticks
is one whose id the maker remembers. -/
theorem maker_remembers [Field Price] [LinearOrder Price] (params : MakerParams Price)
    {labels : List (QuotingLabel Price)} {state : Quoting Price}
    (run : Run ((quotingSystem params).restrict (CallKept params)) labels state)
    (idle : state.pc = .idle) :
    ∀ resting ∈ state.book.restingOrders, resting.orderId ∈ state.own →
      resting.orderId = state.maker.bidOrderId ∨ resting.orderId = state.maker.askOrderId := by
  have remembers : Remembers state := by
    refine run.invariant (fun _ state => Remembers state) ?_ ?_
    · rintro _ rfl
      exact remembers_initial
    · exact fun _ _ _ _ _ remembers step => remembers.step step.1 step.2
  intro resting member own
  have remembered := remembers.remembered resting.orderId own (List.mem_map_of_mem member)
  rw [idle] at remembered
  exact List.mem_pair.mp remembered

theorem maker_remembers_sample : ∃ labels state,
    Run ((quotingSystem Sample.makerParams).restrict (CallKept Sample.makerParams)) labels state ∧
      "ORD-0" ∈ state.own ∧ "ORD-0" ∉ state.book.restingIds ∧
      ("ORD-4" = state.maker.bidOrderId ∨ "ORD-4" = state.maker.askOrderId) := by
  obtain ⟨labels, run⟩ := Sample.keptRequote
  exact ⟨labels, _, run, by decide, by decide +kernel,
    maker_remembers Sample.makerParams run rfl ⟨.ask, .limit, 102, 10, "ORD-4", "mm-1"⟩
      (by decide +kernel) (by decide)⟩

/-- The cancel of the old bid fails; the requote goes on and forgets the bid, which still rests. -/
theorem failed_cancel_forgets : ∃ labels state,
    Run (quotingSystem Sample.makerParams) (labels ++ [QuotingLabel.store]) state ∧
      state.pc = .idle ∧
      "ORD-0" ∈ state.own ∧ "ORD-0" ∈ state.book.restingIds ∧
      state.maker.bidOrderId = "ORD-3" ∧ state.maker.askOrderId = "ORD-4" ∧
      ¬ ∀ resting ∈ state.book.restingOrders, resting.orderId ∈ state.own →
        resting.orderId = state.maker.bidOrderId ∨ resting.orderId = state.maker.askOrderId := by
  obtain ⟨labels, run⟩ := Sample.secondRequote
  have rests : (⟨.bid, .limit, 99, 10, "ORD-0", "mm-1"⟩ : Order ℚ) ∈
      Sample.raisedAsk.after.restingOrders := by decide +kernel
  refine ⟨labels, _, run, rfl, by decide, List.mem_map_of_mem rests, rfl, rfl, fun remembers => ?_⟩
  have forgotten := remembers _ rests (by decide)
  revert forgotten
  decide

end MarketSandbox
