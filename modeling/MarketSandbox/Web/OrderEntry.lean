/-
This file models order entry: a page sends a request over its socket, the gateway
calls the exchange and sends the result back over the same socket, and the page
settles the request with the result or when its timer runs out. Pages come and
go, sockets close at either end at any moment and lose what is on its way, calls
fail or outlive the gateway's patience, and other clients use the exchange
meanwhile. Every request is settled once, by its result or by its timer; a
result that says ok is that of the one operation that the exchange has performed
for the request.
-/

import MarketSandbox.Exchange.Handlers
import MarketSandbox.Web.Browser

namespace MarketSandbox

open Transition

variable {Price : Type}

/-! ### Requests and results -/

/-- What a page asks for: the message of `placeOrder` or `cancelOrder`, without its `reqId`. A
price or a quantity that is not a number travels as `null`. -/
inductive Ticket (Price : Type)
  | order (side : BookSide) (type : WireType) (price : Option Price) (qty : Option ℚ)
  | cancel (orderId : String)

/-- `OrderResult`; a field that is `undefined` does not travel. -/
structure OrderResult (Price : Type) where
  ok : Bool
  orderId : Option String
  status : Option String
  filled : Option Int
  avg : Option Price
  reason : Option String

/-- `side === "bid" ? "BID" : "ASK"`, as a value of the enumeration. -/
def BookSide.orderSide : BookSide → Int
  | .bid => 1
  | .ask => 2

/-- `type === "market" ? "MARKET" : "LIMIT"`, as a value of the enumeration. -/
def WireType.orderType : WireType → Int
  | .market => 1
  | .limit => 2

/-- The request that the gateway makes of a message: `placeOrder` with `Number(m.price) || 0` and
`Math.floor(Number(m.qty))`, or the call of `CancelOrder`. -/
def Ticket.incoming [Zero Price] : Ticket Price → Incoming Price
  | .order side type price qty =>
    .submitOrder ⟨"human", side.orderSide, type.orderType, num price, (num qty).floor⟩
  | .cancel orderId => .cancelOrder ⟨"human", orderId⟩

/-- The order that a ticket names. -/
def Ticket.orderId? : Ticket Price → Option String
  | .order _ _ _ _ => none
  | .cancel orderId => some orderId

/-- `String(r.order_status ?? "").toLowerCase()`. -/
def orderStatusName : Int → String
  | 0 => ""
  | 1 => "filled"
  | 2 => "partial"
  | 3 => "queued"
  | 4 => "rejected"
  | value => toString value

/-- The result that the gateway makes of a response. -/
def Ticket.result (ticket : Ticket Price) : Response Price → OrderResult Price
  | .submitOrder r =>
    { ok := true
      orderId := present "" r.orderId
      status := some (orderStatusName r.orderStatus)
      filled := some (SafeInteger.toNumber r.quantity)
      avg := some r.avgPrice
      reason := some r.rejectionReason }
  | .cancelOrder successful =>
    { ok := successful
      orderId := ticket.orderId?
      status := none
      filled := none
      avg := none
      reason := some (if successful then "" else "order not found") }

/-- A result without an answer of the exchange. -/
def OrderResult.failure (reason : String) : OrderResult Price :=
  ⟨false, none, none, none, none, some reason⟩

/-- An operation is the one that a ticket asks for, with the id that its order is given. -/
def Ticket.Asks [Zero Price] (ticket : Ticket Price) (operation : Operation Price) : Prop :=
  ∃ counter, operation = (ticket.incoming.identify counter).1.payload

/-! ### Pages, sockets, handlers and the exchange -/

/-- A page: its feed, the number of sockets it has opened, the socket that is open, and the
results its requests are settled with. -/
structure Page (Price : Type) where
  feed : Feed Price
  sockets : Nat
  socket : Option Nat
  answers : Nat → Option (OrderResult Price)

/-- What is on its way on a socket, and whether it is open at the gateway. -/
structure Wire (Price : Type) where
  up : List (Nat × Ticket Price)
  down : List (Nat × OrderResult Price)
  isOpen : Bool

/-- A call of the gateway's handler of `message`, and whether it has ended. -/
structure Task (Price : Type) where
  socket : Nat × Nat
  reqId : Nat
  ticket : Ticket Price
  ended : Bool

/-- The pages, the sockets by their page and number, the gateway's handlers by the names of their
calls, and the exchange with all its clients. -/
structure OrderEntry (Price : Type) [LT Price] where
  pages : Nat → Page Price
  wires : Nat × Nat → Wire Price
  tasks : Nat → Option (Task Price)
  exchange : Linearization.State (OrderBook Price) Nat (Operation Price) (Response Price)

/-- The steps. -/
inductive OrderEntryLabel (Price : Type) [LT Price]
  | connect (page : Nat)
  | closed (page : Nat)
  | dropped (socket : Nat × Nat)
  | other (page : Nat) (feed : Feed Price)
  | request (page reqId : Nat) (ticket : Ticket Price)
  | refuse (page : Nat) (ticket : Ticket Price)
  | timeout (page reqId : Nat)
  | receive (socket : Nat × Nat) (reqId name : Nat)
  | exchange (label : Linearization.Label (Record Price) Nat (Operation Price) (Response Price))
  | respond (name : Nat)
  | fail (name : Nat) (reason : String)
  | deliver (page : Nat)

/-- `canTrade`. -/
def Page.CanTrade (page : Page Price) : Prop :=
  page.feed.source = .live ∧ page.feed.exchangeUp ∧ page.socket.isSome

/-- `send`. -/
def Wire.send (wire : Wire Price) (reqId : Nat) (result : OrderResult Price) : Wire Price :=
  if wire.isOpen then { wire with down := wire.down ++ [(reqId, result)] } else wire

/-- The case `result` of `onMessage`, with the call of `cb`. -/
def Page.settle (page : Page Price) (reqId : Nat) (result : OrderResult Price) : Page Price :=
  { page with
    feed := (page.feed.onMessage (.result reqId)).1
    answers :=
      if reqId ∈ page.feed.pending then Function.update page.answers reqId (some result)
      else page.answers }

/-- A request's timer runs out, which its answer would have cleared. -/
def Page.timeOut (page : Page Price) (reqId : Nat) : Page Price :=
  { page with
    feed := page.feed.requestTimeout reqId
    answers := Function.update page.answers reqId
      (some (.failure "No answer from the exchange.")) }

section Model

variable [PriceOperations Price]

/-- Nobody has asked for anything. -/
def OrderEntry.initial : OrderEntry Price where
  pages _ := ⟨.initial, 0, none, fun _ => none⟩
  wires _ := ⟨[], [], false⟩
  tasks _ := none
  exchange := ⟨.empty, fun _ => .idle⟩

/-- The end of a handler: it sends a result. -/
def OrderEntry.finish (state : OrderEntry Price) (name : Nat) (task : Task Price)
    (result : OrderResult Price) : OrderEntry Price :=
  { state with
    wires := Function.update state.wires task.socket
      ((state.wires task.socket).send task.reqId result)
    tasks := Function.update state.tasks name (some { task with ended := true }) }

/-- Order entry as a transition system. -/
def orderEntrySystem (Price : Type) [PriceOperations Price] :
    System (OrderEntry Price) (OrderEntryLabel Price) where
  initial state := state = .initial
  step source label target :=
    match label with
    | .connect page => (source.pages page).socket = none ∧
        target = { source with
          pages := Function.update source.pages page
            { source.pages page with
              socket := some (source.pages page).sockets
              sockets := (source.pages page).sockets + 1 }
          wires := Function.update source.wires (page, (source.pages page).sockets)
            ⟨[], [], true⟩ }
    | .closed page => target = { source with
        pages := Function.update source.pages page
          { source.pages page with feed := (source.pages page).feed.onClose.1, socket := none } }
    | .dropped socket => target = { source with
        wires := Function.update source.wires socket
          { source.wires socket with up := [], isOpen := false } }
    | .other page feed => feed.reqId = (source.pages page).feed.reqId ∧
        feed.pending = (source.pages page).feed.pending ∧
        target = { source with
          pages := Function.update source.pages page { source.pages page with feed := feed } }
    | .request page reqId ticket => ∃ number, (source.pages page).CanTrade ∧
        (source.pages page).socket = some number ∧ reqId = (source.pages page).feed.reqId + 1 ∧
        target = { source with
          pages := Function.update source.pages page
            { source.pages page with feed := (source.pages page).feed.request true }
          wires := Function.update source.wires (page, number)
            { source.wires (page, number) with
              up := (source.wires (page, number)).up ++ [(reqId, ticket)] } }
    | .refuse page _ => ¬ (source.pages page).CanTrade ∧ target = source
    | .timeout page reqId => reqId ∈ (source.pages page).feed.pending ∧
        target = { source with
          pages := Function.update source.pages page ((source.pages page).timeOut reqId) }
    | .receive socket reqId name => ∃ ticket rest, (source.wires socket).isOpen = true ∧
        (source.wires socket).up = (reqId, ticket) :: rest ∧ source.tasks name = none ∧
        source.exchange.clients name = .idle ∧
        target = { source with
          wires := Function.update source.wires socket { source.wires socket with up := rest }
          tasks := Function.update source.tasks name (some ⟨socket, reqId, ticket, false⟩) }
    | .exchange label => ∃ exchange,
        (Linearization.system (bookSystem Price) Record.operation Record.response).step
          source.exchange label exchange ∧
        (∀ name operation task, label = .call name operation → source.tasks name = some task →
          task.ticket.Asks operation) ∧
        target = { source with exchange := exchange }
    | .respond name => ∃ task operation response, source.tasks name = some task ∧
        task.ended = false ∧ source.exchange.clients name = .answered operation response ∧
        target = source.finish name task (task.ticket.result response)
    | .fail name reason => ∃ task, source.tasks name = some task ∧ task.ended = false ∧
        target = source.finish name task (.failure reason)
    | .deliver page => ∃ number reqId result rest, (source.pages page).socket = some number ∧
        (source.wires (page, number)).down = (reqId, result) :: rest ∧
        target = { source with
          pages := Function.update source.pages page ((source.pages page).settle reqId result)
          wires := Function.update source.wires (page, number)
            { source.wires (page, number) with down := rest } }

/-- A run of order entry. -/
abbrev OrderEntryRun (labels : List (OrderEntryLabel Price)) (state : OrderEntry Price) : Prop :=
  Run (orderEntrySystem Price) labels state

end Model

/-! ### The rest of a page -/

theorem Feed.rewind_requests (feed : Feed Price) (now : ℚ) :
    (feed.rewind now).reqId = feed.reqId ∧ (feed.rewind now).pending = feed.pending := by
  unfold Feed.rewind
  split <;> exact ⟨rfl, rfl⟩

theorem Feed.push_requests (feed : Feed Price) (frames : List (Frame Price)) :
    (feed.push frames).reqId = feed.reqId ∧ (feed.push frames).pending = feed.pending := by
  simp only [Feed.push]
  split_ifs <;> exact ⟨rfl, rfl⟩

theorem Feed.onClose_requests (feed : Feed Price) :
    feed.onClose.1.reqId = feed.reqId ∧ feed.onClose.1.pending = feed.pending := by
  unfold Feed.onClose
  split_ifs <;> exact ⟨rfl, rfl⟩

theorem Feed.stepOver_requests (frames : List (Frame Price)) (feed : Feed Price) :
    (Feed.stepOver frames feed).1.reqId = feed.reqId ∧
      (Feed.stepOver frames feed).1.pending = feed.pending := by
  induction frames generalizing feed with
  | nil => exact ⟨rfl, rfl⟩
  | cons frame rest inductionHypothesis =>
    cases frame with
    | batch => exact ⟨rfl, rfl⟩
    | book => exact inductionHypothesis _

theorem Feed.onMessage_requests (feed : Feed Price) {message : Message Price}
    (notResult : ∀ reqId, message ≠ .result reqId) :
    (feed.onMessage message).1.reqId = feed.reqId ∧
      (feed.onMessage message).1.pending = feed.pending := by
  cases message with
  | hello => exact ⟨rfl, rfl⟩
  | status =>
    simp only [Feed.onMessage]
    split_ifs <;> exact ⟨rfl, rfl⟩
  | history =>
    simp only [Feed.onMessage]
    split_ifs
    · exact feed.push_requests _
    · exact ⟨rfl, rfl⟩
  | batch | book =>
    simp only [Feed.onMessage]
    split_ifs
    · exact feed.push_requests _
    · exact ⟨rfl, rfl⟩
  | result reqId => exact absurd rfl (notResult reqId)

theorem Feed.afterDownload_requests (feed : Feed Price) (download : Download Price) (now : ℚ) :
    (feed.afterDownload download now).reqId = feed.reqId ∧
      (feed.afterDownload download now).pending = feed.pending := by
  cases download with
  | failed => exact ⟨rfl, rfl⟩
  | parsed lines =>
    simp only [Feed.afterDownload]
    split
    · exact ⟨rfl, rfl⟩
    · split_ifs
      · exact ⟨rfl, rfl⟩
      · exact Feed.push_requests _ _

theorem Browser.perform_requests (browser : Browser Price) {control : Control}
    (notRequest : control ≠ .request) (notTimeout : ∀ reqId, control ≠ .requestTimeout reqId) :
    (browser.perform control).reqId = browser.feed.reqId ∧
      (browser.perform control).pending = browser.feed.pending := by
  cases control with
  | tick now =>
    simp only [perform, Feed.tick]
    split
    · exact ⟨rfl, rfl⟩
    · split_ifs <;> exact ⟨rfl, rfl⟩
    · exact ⟨rfl, rfl⟩
  | takeNew => exact ⟨rfl, rfl⟩
  | seek vt now => exact Feed.rewind_requests _ _
  | goLive now =>
    simp only [perform, Feed.goLive]
    split_ifs
    · exact ⟨rfl, rfl⟩
    · exact Feed.rewind_requests _ _
  | togglePlay now =>
    simp only [perform, Feed.togglePlay]
    split_ifs
    · exact ⟨rfl, rfl⟩
    · exact Feed.rewind_requests _ _
    · exact ⟨rfl, rfl⟩
  | setSpeed speed now =>
    simp only [perform, Feed.setSpeed]
    split_ifs
    · exact ⟨rfl, rfl⟩
    · exact Feed.rewind_requests _ _
    · exact Feed.rewind_requests _ _
  | step => exact Feed.stepOver_requests _ _
  | request => exact absurd rfl notRequest
  | requestTimeout reqId => exact absurd rfl (notTimeout reqId)

/-- A step of a page that is neither a request nor its timer nor a result leaves the requests
alone, so that `other` stands for it. -/
theorem browser_step_requests {source target : Browser Price} {label : BrowserLabel Price}
    (step : (browserSystem Price).step source label target)
    (notRequest : label ≠ .control .request)
    (notTimeout : ∀ reqId, label ≠ .control (.requestTimeout reqId))
    (notResult : ∀ reqId, label ≠ .message (.result reqId)) :
    target.feed.reqId = source.feed.reqId ∧ target.feed.pending = source.feed.pending := by
  cases label with
  | start reachable constructed =>
    obtain ⟨_, rfl⟩ := step
    cases reachable with
    | false => exact ⟨rfl, rfl⟩
    | true =>
      cases constructed with
      | false | true => exact ⟨rfl, rfl⟩
  | startTimer | opened =>
    obtain ⟨_, rfl⟩ := step
    exact ⟨rfl, rfl⟩
  | retry constructed =>
    obtain ⟨_, rfl⟩ := step
    cases constructed with
    | false | true => exact ⟨rfl, rfl⟩
  | closed =>
    obtain ⟨_, rfl⟩ := step
    exact source.feed.onClose_requests
  | message message =>
    obtain ⟨received, _, _, rfl⟩ := step
    exact source.feed.onMessage_requests fun reqId equal => notResult reqId (by rw [equal])
  | downloaded download now =>
    obtain ⟨_, rfl⟩ := step
    exact source.feed.afterDownload_requests download now
  | control control =>
    obtain rfl := step
    exact source.perform_requests (fun equal => notRequest (by rw [equal]))
      fun reqId equal => notTimeout reqId (by rw [equal])
/-! ### Where a request is -/

theorem Wire.send_up (wire : Wire Price) (reqId : Nat) (result : OrderResult Price) :
    (wire.send reqId result).up = wire.up := by
  unfold Wire.send
  split
  · rfl
  · rfl

/-- A request takes the next number and waits for its result. -/
theorem Page.CanTrade.request {page : Page Price} (canTrade : page.CanTrade) :
    (page.feed.request true).reqId = page.feed.reqId + 1 ∧
      (page.feed.request true).pending = page.feed.pending ++ [page.feed.reqId + 1] := by
  rw [Feed.request, if_pos ⟨canTrade.1, canTrade.2.1, rfl⟩]
  exact ⟨rfl, rfl⟩

section Placed

variable [PriceOperations Price]

/-- What a handler works on. -/
def Task.asked (task : Task Price) : (Nat × Nat) × Nat × Ticket Price :=
  (task.socket, task.reqId, task.ticket)

/-- A request on its way to the gateway. -/
def OrderEntry.Waits (state : OrderEntry Price) (socket : Nat × Nat) (reqId : Nat)
    (ticket : Ticket Price) : Prop :=
  (reqId, ticket) ∈ (state.wires socket).up

/-- A handler works on a request. -/
def OrderEntry.Works (state : OrderEntry Price) (name : Nat) (socket : Nat × Nat) (reqId : Nat)
    (ticket : Ticket Price) : Prop :=
  (state.tasks name).map Task.asked = some (socket, reqId, ticket)

/-- The requests of a page have its numbers in order; each was made, is on its way at most once,
and has at most one handler, which has it from the wire. -/
structure OrderEntry.Placed (labels : List (OrderEntryLabel Price)) (state : OrderEntry Price) :
    Prop where
  waiting : ∀ socket reqId ticket, state.Waits socket reqId ticket →
    reqId ≤ (state.pages socket.1).feed.reqId ∧ .request socket.1 reqId ticket ∈ labels
  working : ∀ name socket reqId ticket, state.Works name socket reqId ticket →
    reqId ≤ (state.pages socket.1).feed.reqId ∧ .request socket.1 reqId ticket ∈ labels
  once : ∀ socket, ((state.wires socket).up.map Prod.fst).Nodup
  apart : ∀ page number other reqId ticket otherTicket, state.Waits (page, number) reqId ticket →
    state.Waits (page, other) reqId otherTicket → number = other
  taken : ∀ name page number other reqId ticket otherTicket,
    state.Works name (page, number) reqId ticket →
    ¬ state.Waits (page, other) reqId otherTicket
  unique : ∀ name otherName page number other reqId ticket otherTicket,
    state.Works name (page, number) reqId ticket →
    state.Works otherName (page, other) reqId otherTicket → name = otherName

/-- A step in which requests are only lost. -/
structure OrderEntry.Shrinks (source target : OrderEntry Price) : Prop where
  wires : ∀ socket, (target.wires socket).up.Sublist (source.wires socket).up
  tasks : ∀ name, (target.tasks name).map Task.asked = (source.tasks name).map Task.asked
  reqIds : ∀ page, (target.pages page).feed.reqId = (source.pages page).feed.reqId

theorem OrderEntry.shrinks_finish {source : OrderEntry Price} {name : Nat} {task : Task Price}
    (working : source.tasks name = some task) (result : OrderResult Price) :
    source.Shrinks (source.finish name task result) := by
  refine ⟨?_, ?_, fun _ => rfl⟩
  · refine (Function.forall_update_iff source.wires fun socket wire =>
      wire.up.Sublist (source.wires socket).up).mpr ⟨?_, fun _ _ => List.Sublist.refl _⟩
    rw [Wire.send_up]
  · refine (Function.forall_update_iff source.tasks fun other task =>
      task.map Task.asked = (source.tasks other).map Task.asked).mpr ⟨?_, fun _ _ => rfl⟩
    rw [working]
    rfl

/-- Only a request, or the gateway's receiving one, does more. -/
theorem step_shrinks {source target : OrderEntry Price} {label : OrderEntryLabel Price}
    (step : (orderEntrySystem Price).step source label target)
    (notRequest : ∀ page reqId ticket, label ≠ .request page reqId ticket)
    (notReceive : ∀ socket reqId name, label ≠ .receive socket reqId name) :
    source.Shrinks target := by
  have pages {page : Nat} {after : Page Price}
      (same : after.feed.reqId = (source.pages page).feed.reqId) (other : Nat) :
      (Function.update source.pages page after other).feed.reqId =
        (source.pages other).feed.reqId :=
    (Function.forall_update_iff source.pages fun other page =>
      page.feed.reqId = (source.pages other).feed.reqId).mpr ⟨same, fun _ _ => rfl⟩ other
  have wires {socket : Nat × Nat} {wire : Wire Price}
      (sublist : wire.up.Sublist (source.wires socket).up) (other : Nat × Nat) :
      (Function.update source.wires socket wire other).up.Sublist (source.wires other).up :=
    (Function.forall_update_iff source.wires fun other wire =>
      wire.up.Sublist (source.wires other).up).mpr ⟨sublist, fun _ _ => List.Sublist.refl _⟩ other
  cases label with
  | connect page =>
    obtain ⟨_, rfl⟩ := step
    exact ⟨wires (List.nil_sublist _), fun _ => rfl, pages rfl⟩
  | closed page =>
    obtain rfl := step
    exact ⟨fun _ => List.Sublist.refl _, fun _ => rfl, pages (Feed.onClose_requests _).1⟩
  | dropped socket =>
    obtain rfl := step
    exact ⟨wires (List.nil_sublist _), fun _ => rfl, fun _ => rfl⟩
  | other page feed =>
    obtain ⟨same, _, rfl⟩ := step
    exact ⟨fun _ => List.Sublist.refl _, fun _ => rfl, pages same⟩
  | request page reqId ticket => exact absurd rfl (notRequest _ _ _)
  | refuse page ticket =>
    obtain ⟨_, rfl⟩ := step
    exact ⟨fun _ => List.Sublist.refl _, fun _ => rfl, fun _ => rfl⟩
  | timeout page reqId =>
    obtain ⟨_, rfl⟩ := step
    exact ⟨fun _ => List.Sublist.refl _, fun _ => rfl, pages rfl⟩
  | receive socket reqId name => exact absurd rfl (notReceive _ _ _)
  | exchange label =>
    obtain ⟨_, _, _, rfl⟩ := step
    exact ⟨fun _ => List.Sublist.refl _, fun _ => rfl, fun _ => rfl⟩
  | respond name =>
    obtain ⟨task, _, _, working, _, _, rfl⟩ := step
    exact source.shrinks_finish working _
  | fail name reason =>
    obtain ⟨task, working, _, rfl⟩ := step
    exact source.shrinks_finish working _
  | deliver page =>
    obtain ⟨number, reqId, result, rest, _, _, rfl⟩ := step
    exact ⟨wires (List.Sublist.refl _), fun _ => rfl, pages rfl⟩

theorem OrderEntry.Placed.shrinks {labels : List (OrderEntryLabel Price)}
    {source target : OrderEntry Price} (placed : source.Placed labels)
    (shrinks : source.Shrinks target) (label : OrderEntryLabel Price) :
    target.Placed (labels ++ [label]) := by
  have waits {socket : Nat × Nat} {reqId : Nat} {ticket : Ticket Price}
      (waiting : target.Waits socket reqId ticket) : source.Waits socket reqId ticket :=
    (shrinks.wires socket).subset waiting
  have works {name : Nat} {socket : Nat × Nat} {reqId : Nat} {ticket : Ticket Price}
      (working : target.Works name socket reqId ticket) : source.Works name socket reqId ticket :=
    (shrinks.tasks name).symm.trans working
  constructor
  · intro socket reqId ticket waiting
    rw [shrinks.reqIds]
    exact (placed.waiting socket reqId ticket (waits waiting)).imp_right (List.mem_append_left _)
  · intro name socket reqId ticket working
    rw [shrinks.reqIds]
    exact (placed.working name socket reqId ticket (works working)).imp_right
      (List.mem_append_left _)
  · exact fun socket => (placed.once socket).sublist ((shrinks.wires socket).map _)
  · exact fun page number other reqId ticket otherTicket waiting otherWaiting =>
      placed.apart page number other reqId ticket otherTicket (waits waiting) (waits otherWaiting)
  · exact fun name page number other reqId ticket otherTicket working waiting =>
      placed.taken name page number other reqId ticket otherTicket (works working) (waits waiting)
  · exact fun name otherName page number other reqId ticket otherTicket working otherWorking =>
      placed.unique name otherName page number other reqId ticket otherTicket (works working)
        (works otherWorking)

theorem OrderEntry.Placed.request {labels : List (OrderEntryLabel Price)}
    {source target : OrderEntry Price} {page reqId : Nat} {ticket : Ticket Price}
    (placed : source.Placed labels)
    (step : (orderEntrySystem Price).step source (.request page reqId ticket) target) :
    target.Placed (labels ++ [OrderEntryLabel.request page reqId ticket]) := by
  obtain ⟨number, canTrade, _, isNext, rfl⟩ := step
  have counts := canTrade.request.1
  -- what waits is the new request, or it waited before
  have waits {socket : Nat × Nat} {other : Nat} {otherTicket : Ticket Price}
      (waiting : (other, otherTicket) ∈ (Function.update source.wires (page, number)
        { source.wires (page, number) with
          up := (source.wires (page, number)).up ++ [(reqId, ticket)] } socket).up) :
      (socket = (page, number) ∧ other = reqId ∧ otherTicket = ticket) ∨
        source.Waits socket other otherTicket := by
    by_cases same : socket = (page, number)
    · subst same
      rw [Function.update_self, List.mem_append, List.mem_singleton, Prod.mk.injEq] at waiting
      exact waiting.symm.imp_left fun new => ⟨rfl, new⟩
    · rw [Function.update_of_ne same] at waiting
      exact .inr waiting
  have older {number other : Nat} {otherTicket : Ticket Price}
      (waiting : source.Waits (page, number) other otherTicket) : other ≠ reqId := by
    have bound := (placed.waiting _ _ _ waiting).1
    simp only at bound
    omega
  have grows (other : Nat) : (source.pages other).feed.reqId ≤ (Function.update source.pages page
      { source.pages page with feed := (source.pages page).feed.request true } other).feed.reqId :=
    (Function.forall_update_iff source.pages fun other page =>
      (source.pages other).feed.reqId ≤ page.feed.reqId).mpr
        ⟨by simp only [counts]; omega, fun _ _ => le_rfl⟩ other
  constructor
  · intro socket other otherTicket waiting
    rcases waits waiting with ⟨rfl, rfl, rfl⟩ | old
    · refine ⟨?_, List.mem_append_right _ List.mem_cons_self⟩
      simp only [Function.update_self, counts]
      exact isNext.le
    · obtain ⟨bound, made⟩ := placed.waiting socket other otherTicket old
      exact ⟨bound.trans (grows socket.1), List.mem_append_left _ made⟩
  · intro name socket other otherTicket working
    obtain ⟨bound, made⟩ := placed.working name socket other otherTicket working
    exact ⟨bound.trans (grows socket.1), List.mem_append_left _ made⟩
  · intro socket
    by_cases same : socket = (page, number)
    · subst same
      simp only [Function.update_self, List.map_append]
      refine (placed.once (page, number)).append (List.nodup_singleton reqId)
        (List.disjoint_singleton.mpr fun member => ?_)
      obtain ⟨⟨other, otherTicket⟩, waiting, rfl⟩ := List.mem_map.mp member
      exact older waiting rfl
    · simp only [Function.update_of_ne same]
      exact placed.once socket
  · intro otherPage first second other firstTicket secondTicket waiting otherWaiting
    rcases waits waiting with ⟨isSocket, rfl, _⟩ | old
    · obtain ⟨rfl, rfl⟩ := Prod.mk.inj isSocket
      rcases waits otherWaiting with ⟨isOther, _⟩ | otherOld
      · exact (Prod.mk.inj isOther).2.symm
      · exact absurd rfl (older otherOld)
    · rcases waits otherWaiting with ⟨isOther, rfl, _⟩ | otherOld
      · obtain ⟨rfl, rfl⟩ := Prod.mk.inj isOther
        exact absurd rfl (older old)
      · exact placed.apart otherPage first second other firstTicket secondTicket old otherOld
  · intro name otherPage first second other firstTicket secondTicket working waiting
    rcases waits waiting with ⟨isSocket, rfl, _⟩ | old
    · obtain ⟨rfl, rfl⟩ := Prod.mk.inj isSocket
      have bound := (placed.working name _ _ _ working).1
      simp only at bound
      omega
    · exact placed.taken name otherPage first second other firstTicket secondTicket working old
  · exact placed.unique

theorem OrderEntry.Placed.receive {labels : List (OrderEntryLabel Price)}
    {source target : OrderEntry Price} {socket : Nat × Nat} {reqId name : Nat}
    (placed : source.Placed labels)
    (step : (orderEntrySystem Price).step source (.receive socket reqId name) target) :
    target.Placed (labels ++ [OrderEntryLabel.receive socket reqId name]) := by
  obtain ⟨ticket, rest, _, isHead, isNew, _, rfl⟩ := step
  have shrinks (other : Nat × Nat) : (Function.update source.wires socket
      { source.wires socket with up := rest } other).up.Sublist (source.wires other).up :=
    (Function.forall_update_iff source.wires fun other wire =>
      wire.up.Sublist (source.wires other).up).mpr
        ⟨isHead ▸ List.sublist_cons_self _ _, fun _ _ => List.Sublist.refl _⟩ other
  have head : source.Waits socket reqId ticket := by
    rw [OrderEntry.Waits, isHead]
    exact List.mem_cons_self
  -- what is left on the wires has another number
  have left {number : Nat} {otherTicket : Ticket Price} (waiting : (reqId, otherTicket) ∈
      (Function.update source.wires socket { source.wires socket with up := rest }
        (socket.1, number)).up) : False := by
    have isNumber := placed.apart socket.1 number socket.2 reqId otherTicket ticket
      ((shrinks _).subset waiting) head
    rw [isNumber, Function.update_self] at waiting
    have once := placed.once socket
    rw [isHead, List.map_cons] at once
    exact (List.nodup_cons.mp once).1 (List.mem_map.mpr ⟨_, waiting, rfl⟩)
  -- the work is the new handler's, or it was there before
  have works {other : Nat} {otherSocket : Nat × Nat} {otherId : Nat} {otherTicket : Ticket Price}
      (working : (Function.update source.tasks name (some ⟨socket, reqId, ticket, false⟩)
        other).map Task.asked = some (otherSocket, otherId, otherTicket)) :
      (other = name ∧ otherSocket = socket ∧ otherId = reqId ∧ otherTicket = ticket) ∨
        source.Works other otherSocket otherId otherTicket := by
    by_cases same : other = name
    · subst same
      rw [Function.update_self, Option.map_some, Option.some.injEq] at working
      obtain ⟨isSocket, isRequest⟩ := Prod.mk.inj working
      obtain ⟨isId, isTicket⟩ := Prod.mk.inj isRequest
      exact .inl ⟨rfl, isSocket.symm, isId.symm, isTicket.symm⟩
    · rw [Function.update_of_ne same] at working
      exact .inr working
  constructor
  · intro other otherId otherTicket waiting
    exact (placed.waiting other otherId otherTicket ((shrinks other).subset waiting)).imp_right
      (List.mem_append_left _)
  · intro other otherSocket otherId otherTicket working
    rcases works working with ⟨_, rfl, rfl, rfl⟩ | old
    · exact (placed.waiting _ _ _ head).imp_right (List.mem_append_left _)
    · exact (placed.working other otherSocket otherId otherTicket old).imp_right
        (List.mem_append_left _)
  · exact fun other => (placed.once other).sublist ((shrinks other).map _)
  · exact fun page first second otherId firstTicket secondTicket waiting otherWaiting =>
      placed.apart page first second otherId firstTicket secondTicket
        ((shrinks _).subset waiting) ((shrinks _).subset otherWaiting)
  · intro other page first second otherId firstTicket secondTicket working waiting
    rcases works working with ⟨_, rfl, rfl, rfl⟩ | old
    · exact left waiting
    · exact placed.taken other page first second otherId firstTicket secondTicket old
        ((shrinks _).subset waiting)
  · intro one other page first second otherId firstTicket secondTicket working otherWorking
    rcases works working with ⟨rfl, rfl, rfl, rfl⟩ | old
    · rcases works otherWorking with ⟨rfl, _⟩ | otherOld
      · rfl
      · exact absurd head (placed.taken other page second first otherId secondTicket firstTicket
          otherOld)
    · rcases works otherWorking with ⟨rfl, rfl, rfl, rfl⟩ | otherOld
      · exact absurd head (placed.taken one page first second otherId firstTicket secondTicket old)
      · exact placed.unique one other page first second otherId firstTicket secondTicket old
          otherOld

/-- Every run has its requests in place. -/
theorem OrderEntryRun.placed {labels : List (OrderEntryLabel Price)} {state : OrderEntry Price}
    (run : OrderEntryRun labels state) : state.Placed labels := by
  refine run.invariant (fun labels state => state.Placed labels) ?_ ?_
  · rintro _ rfl
    exact ⟨fun _ _ _ waiting => absurd waiting List.not_mem_nil,
      fun _ _ _ _ working => (by cases working), fun _ => List.nodup_nil,
      fun _ _ _ _ _ _ waiting => absurd waiting List.not_mem_nil,
      fun _ _ _ _ _ _ _ _ working => (by cases working),
      fun _ _ _ _ _ _ _ _ working => (by cases working)⟩
  · intro labels source label target _ placed step
    cases label with
    | request page reqId ticket => exact placed.request step
    | receive socket reqId name => exact placed.receive step
    | _ =>
      refine placed.shrinks (step_shrinks step ?_ ?_) _
      · exact fun _ _ _ equal => by cases equal
      · exact fun _ _ _ equal => by cases equal

end Placed

/-! ### Every request is settled once -/

/-- The requests of a page are numbered; each waits for its result or is settled. -/
structure Page.Settled (page : Page Price) : Prop where
  distinct : page.feed.pending.Nodup
  numbered : ∀ reqId, 0 < reqId ∧ reqId ≤ page.feed.reqId ↔
    reqId ∈ page.feed.pending ∨ (page.answers reqId).isSome
  unsettled : ∀ reqId ∈ page.feed.pending, page.answers reqId = none

namespace Page

/-- Two pages have made the same requests, with the same results. -/
def SameRequests (after page : Page Price) : Prop :=
  after.feed.reqId = page.feed.reqId ∧ after.feed.pending = page.feed.pending ∧
    after.answers = page.answers

variable {page : Page Price}

theorem Settled.of_same (settled : page.Settled) {after : Page Price}
    (same : after.SameRequests page) : after.Settled := by
  obtain ⟨reqId, pending, answers⟩ := same
  constructor
  · rw [pending]
    exact settled.distinct
  · rw [reqId, pending, answers]
    exact settled.numbered
  · rw [pending, answers]
    exact settled.unsettled

theorem Settled.request (settled : page.Settled) (canTrade : page.CanTrade) :
    ({ page with feed := page.feed.request true } : Page Price).Settled := by
  obtain ⟨reqId, pending⟩ := canTrade.request
  have isNew : page.feed.reqId + 1 ∉ page.feed.pending := by
    intro member
    have bound := ((settled.numbered _).mpr (.inl member)).2
    omega
  constructor
  · rw [pending]
    exact settled.distinct.append (List.nodup_singleton _) (List.disjoint_singleton.mpr isNew)
  · intro other
    have numbered := settled.numbered other
    simp only [reqId, pending, List.mem_append, List.mem_singleton]
    constructor
    · rintro ⟨positive, bound⟩
      by_cases last : other = page.feed.reqId + 1
      · exact .inl (.inr last)
      · exact (numbered.mp ⟨positive, by omega⟩).imp_left .inl
    · rintro ((member | rfl) | isSet)
      · have bounds := numbered.mpr (.inl member)
        omega
      · omega
      · have bounds := numbered.mpr (.inr isSet)
        omega
  · intro other member
    rw [pending, List.mem_append, List.mem_singleton] at member
    rcases member with old | rfl
    · exact settled.unsettled other old
    · by_contra isSet
      have bound := ((settled.numbered _).mpr (.inr (Option.isSome_iff_ne_none.mpr isSet))).2
      omega

theorem Settled.settle (settled : page.Settled) (reqId : Nat) (result : OrderResult Price) :
    (page.settle reqId result).Settled := by
  by_cases waits : reqId ∈ page.feed.pending
  · have pending (other : Nat) :
        other ∈ (page.settle reqId result).feed.pending ↔
          other ≠ reqId ∧ other ∈ page.feed.pending := settled.distinct.mem_erase_iff
    have answers : (page.settle reqId result).answers =
        Function.update page.answers reqId (some result) := if_pos waits
    constructor
    · exact settled.distinct.erase reqId
    · intro other
      rw [pending, answers]
      refine (settled.numbered other).trans ?_
      by_cases same : other = reqId
      · subst same
        simp [waits]
      · simp [same]
    · intro other member
      obtain ⟨different, old⟩ := (pending other).mp member
      rw [answers, Function.update_of_ne different]
      exact settled.unsettled other old
  · exact settled.of_same ⟨rfl, List.erase_of_not_mem waits, if_neg waits⟩

/-- The timer settles its request with a failure. -/
theorem timeOut_eq {reqId : Nat} (waits : reqId ∈ page.feed.pending) :
    page.timeOut reqId = page.settle reqId (.failure "No answer from the exchange.") := by
  rw [timeOut, Page.settle, if_pos waits]
  rfl

/-- A settled request keeps its result. -/
theorem Settled.kept (settled : page.Settled) {reqId other : Nat} {result : OrderResult Price}
    {earlier : OrderResult Price} (answered : page.answers other = some earlier) :
    (page.settle reqId result).answers other = some earlier := by
  by_cases waits : reqId ∈ page.feed.pending
  · simp only [Page.settle, if_pos waits]
    rw [Function.update_of_ne, answered]
    rintro rfl
    rw [settled.unsettled _ waits] at answered
    cases answered
  · rw [Page.settle, if_neg waits]
    exact answered

/-- A settled page has the results that it had, and the new one. -/
theorem answers_settle {reqId other : Nat} {result settling : OrderResult Price}
    (answered : (page.settle other settling).answers reqId = some result) :
    page.answers reqId = some result ∨ (reqId = other ∧ result = settling) := by
  by_cases waits : other ∈ page.feed.pending
  · simp only [Page.settle, if_pos waits] at answered
    by_cases same : reqId = other
    · subst same
      rw [Function.update_self] at answered
      exact .inr ⟨rfl, (Option.some.inj answered).symm⟩
    · rw [Function.update_of_ne same] at answered
      exact .inl answered
  · simp only [Page.settle, if_neg waits] at answered
    exact .inl answered

end Page

section Settled

variable [PriceOperations Price]

/-- What a step does to a page: nothing to its requests, a new one, or it settles one with a
failure or with a result from a wire. -/
theorem step_page {source target : OrderEntry Price} {label : OrderEntryLabel Price}
    (step : (orderEntrySystem Price).step source label target) (page : Nat) :
    (target.pages page).SameRequests (source.pages page) ∨
    ((source.pages page).CanTrade ∧ target.pages page =
      { source.pages page with feed := (source.pages page).feed.request true }) ∨
    ∃ reqId result, target.pages page = (source.pages page).settle reqId result ∧
      (result.ok = false ∨ ∃ number, (reqId, result) ∈ (source.wires (page, number)).down) := by
  have unchanged : (source.pages page).SameRequests (source.pages page) := ⟨rfl, rfl, rfl⟩
  have one {changed : Nat} {after : Page Price}
      (same : after.SameRequests (source.pages changed)) :
      (Function.update source.pages changed after page).SameRequests (source.pages page) :=
    (Function.forall_update_iff source.pages fun page after =>
      after.SameRequests (source.pages page)).mpr ⟨same, fun _ _ => ⟨rfl, rfl, rfl⟩⟩ page
  cases label with
  | connect changed =>
    obtain ⟨_, rfl⟩ := step
    exact .inl (one ⟨rfl, rfl, rfl⟩)
  | closed changed =>
    obtain rfl := step
    obtain ⟨reqId, pending⟩ := (source.pages changed).feed.onClose_requests
    exact .inl (one ⟨reqId, pending, rfl⟩)
  | dropped socket =>
    obtain rfl := step
    exact .inl unchanged
  | other changed feed =>
    obtain ⟨reqId, pending, rfl⟩ := step
    exact .inl (one ⟨reqId, pending, rfl⟩)
  | request changed reqId ticket =>
    obtain ⟨number, canTrade, _, _, rfl⟩ := step
    by_cases here : page = changed
    · subst here
      exact .inr (.inl ⟨canTrade, Function.update_self _ _ _⟩)
    · simp only [Function.update_of_ne here]
      exact .inl unchanged
  | refuse changed ticket =>
    obtain ⟨_, rfl⟩ := step
    exact .inl unchanged
  | timeout changed reqId =>
    obtain ⟨waits, rfl⟩ := step
    by_cases here : page = changed
    · subst here
      refine .inr (.inr ⟨reqId, .failure "No answer from the exchange.", ?_, .inl rfl⟩)
      simp only [Function.update_self, Page.timeOut_eq waits]
    · simp only [Function.update_of_ne here]
      exact .inl unchanged
  | receive socket reqId name =>
    obtain ⟨_, _, _, _, _, _, rfl⟩ := step
    exact .inl unchanged
  | exchange label =>
    obtain ⟨_, _, _, rfl⟩ := step
    exact .inl unchanged
  | respond name =>
    obtain ⟨_, _, _, _, _, _, rfl⟩ := step
    exact .inl unchanged
  | fail name reason =>
    obtain ⟨_, _, _, rfl⟩ := step
    exact .inl unchanged
  | deliver changed =>
    obtain ⟨number, reqId, result, rest, _, isHead, rfl⟩ := step
    by_cases here : page = changed
    · subst here
      refine .inr (.inr ⟨reqId, result, Function.update_self _ _ _, .inr ⟨number, ?_⟩⟩)
      rw [isHead]
      exact List.mem_cons_self
    · simp only [Function.update_of_ne here]
      exact .inl unchanged

/-- Every page of a run is settled. -/
theorem OrderEntryRun.settled {labels : List (OrderEntryLabel Price)} {state : OrderEntry Price}
    (run : OrderEntryRun labels state) (page : Nat) : (state.pages page).Settled := by
  refine run.invariant (fun _ state => (state.pages page).Settled) ?_ ?_
  · rintro _ rfl
    refine ⟨List.nodup_nil, fun reqId => ?_, fun _ member => absurd member List.not_mem_nil⟩
    simp only [OrderEntry.initial, Feed.initial, List.not_mem_nil, Option.isSome_none,
      Bool.false_eq_true, or_self, iff_false]
    omega
  · intro labels source label target _ settled step
    rcases step_page step page with same | ⟨canTrade, after⟩ | ⟨reqId, result, after, _⟩
    · exact settled.of_same same
    · rw [after]
      exact settled.request canTrade
    · rw [after]
      exact settled.settle reqId result

/-- A settled request keeps its result for ever. -/
theorem OrderEntryRun.kept {front back : List (OrderEntryLabel Price)}
    {source target : OrderEntry Price} (run : OrderEntryRun front source)
    (steps : Steps (orderEntrySystem Price) source back target) {page reqId : Nat}
    {result : OrderResult Price} (answered : (source.pages page).answers reqId = some result) :
    (target.pages page).answers reqId = some result := by
  induction steps generalizing front with
  | nil => exact answered
  | cons head _ inductionHypothesis =>
    refine inductionHypothesis (run.next head) ?_
    rcases step_page head page with ⟨_, _, answers⟩ | ⟨_, after⟩ | ⟨other, otherResult, after, _⟩
    · rw [answers]
      exact answered
    · rw [after]
      exact answered
    · rw [after]
      exact (OrderEntryRun.settled run page).kept answered

end Settled

/-! ### A result that says ok is the exchange's -/

section Truthful

variable [PriceOperations Price]

/-- A result says ok only when it comes from the response to the call of the request's handler. -/
def OrderEntry.Truthful (state : OrderEntry Price) (page reqId : Nat)
    (result : OrderResult Price) : Prop :=
  result.ok = true → ∃ name number ticket operation response,
    state.Works name (page, number) reqId ticket ∧
    state.exchange.clients name = .answered operation response ∧ result = ticket.result response

/-- Every result on a wire or at a page is truthful, and a handler calls only the operation that
its ticket asks for. -/
structure OrderEntry.Honest (state : OrderEntry Price) : Prop where
  down : ∀ socket reqId result, (reqId, result) ∈ (state.wires socket).down →
    state.Truthful socket.1 reqId result
  answers : ∀ page reqId result, (state.pages page).answers reqId = some result →
    state.Truthful page reqId result
  asks : ∀ name socket reqId ticket operation, state.Works name socket reqId ticket →
    (state.exchange.clients name).operation? = some operation → ticket.Asks operation

/-- Only the receipt of a request begins a handler's work. -/
theorem step_tasks {source target : OrderEntry Price} {label : OrderEntryLabel Price}
    (step : (orderEntrySystem Price).step source label target) (name : Nat) :
    (target.tasks name).map Task.asked = (source.tasks name).map Task.asked ∨
      source.tasks name = none ∧ source.exchange.clients name = .idle ∧
        target.exchange = source.exchange := by
  by_cases isReceive : ∃ socket reqId name, label = .receive socket reqId name
  · obtain ⟨socket, reqId, other, rfl⟩ := isReceive
    obtain ⟨_, _, _, _, isNew, isIdle, rfl⟩ := step
    by_cases same : name = other
    · subst same
      exact .inr ⟨isNew, isIdle, rfl⟩
    · refine .inl ?_
      simp only [Function.update_of_ne same]
  · refine .inl ?_
    by_cases isRequest : ∃ page reqId ticket, label = .request page reqId ticket
    · obtain ⟨page, reqId, ticket, rfl⟩ := isRequest
      obtain ⟨_, _, _, _, rfl⟩ := step
      rfl
    · exact (step_shrinks step
        (fun page reqId ticket equal => isRequest ⟨page, reqId, ticket, equal⟩)
        (fun socket reqId name equal => isReceive ⟨socket, reqId, name, equal⟩)).tasks name

/-- A handler keeps what it works on. -/
theorem step_works {source target : OrderEntry Price} {label : OrderEntryLabel Price}
    (step : (orderEntrySystem Price).step source label target) {name : Nat} {socket : Nat × Nat}
    {reqId : Nat} {ticket : Ticket Price} (works : source.Works name socket reqId ticket) :
    target.Works name socket reqId ticket := by
  rcases step_tasks step name with same | ⟨isNew, _⟩
  · exact same.trans works
  · rw [OrderEntry.Works, isNew] at works
    cases works

/-- Only its own steps change the exchange. -/
theorem step_exchange {source target : OrderEntry Price} {label : OrderEntryLabel Price}
    (step : (orderEntrySystem Price).step source label target)
    (notExchange : ∀ exchangeLabel, label ≠ .exchange exchangeLabel) :
    target.exchange = source.exchange := by
  cases label with
  | connect =>
    obtain ⟨_, rfl⟩ := step
    rfl
  | closed | dropped =>
    obtain rfl := step
    rfl
  | other =>
    obtain ⟨_, _, rfl⟩ := step
    rfl
  | request =>
    obtain ⟨_, _, _, _, rfl⟩ := step
    rfl
  | refuse | timeout =>
    obtain ⟨_, rfl⟩ := step
    rfl
  | receive =>
    obtain ⟨_, _, _, _, _, _, rfl⟩ := step
    rfl
  | exchange label => exact absurd rfl (notExchange label)
  | respond =>
    obtain ⟨_, _, _, _, _, _, rfl⟩ := step
    rfl
  | fail =>
    obtain ⟨_, _, _, rfl⟩ := step
    rfl
  | deliver =>
    obtain ⟨_, _, _, _, _, _, rfl⟩ := step
    rfl

theorem OrderEntry.Truthful.step {source target : OrderEntry Price}
    {label : OrderEntryLabel Price} {page reqId : Nat} {result : OrderResult Price}
    (truthful : source.Truthful page reqId result)
    (step : (orderEntrySystem Price).step source label target) :
    target.Truthful page reqId result := by
  intro ok
  obtain ⟨name, number, ticket, operation, response, works, answered, isResult⟩ := truthful ok
  refine ⟨name, number, ticket, operation, response, step_works step works, ?_, isResult⟩
  by_cases isExchange : ∃ exchangeLabel, label = .exchange exchangeLabel
  · obtain ⟨exchangeLabel, rfl⟩ := isExchange
    obtain ⟨exchange, performed, _, rfl⟩ := step
    exact Linearization.step_answered performed answered
  · rw [step_exchange step fun exchangeLabel equal => isExchange ⟨exchangeLabel, equal⟩]
    exact answered

/-- What a handler sends at its end. -/
theorem mem_finish_down {source : OrderEntry Price} {name : Nat} {task : Task Price}
    {result : OrderResult Price} {socket : Nat × Nat} {reqId : Nat} {other : OrderResult Price}
    (member : (reqId, other) ∈ ((source.finish name task result).wires socket).down) :
    (reqId, other) ∈ (source.wires socket).down ∨
      (socket = task.socket ∧ reqId = task.reqId ∧ other = result) := by
  simp only [OrderEntry.finish] at member
  by_cases same : socket = task.socket
  · subst same
    rw [Function.update_self, Wire.send] at member
    split at member
    · simp only [List.mem_append, List.mem_singleton, Prod.mk.injEq] at member
      exact member.imp_right fun new => ⟨rfl, new⟩
    · exact .inl member
  · rw [Function.update_of_ne same] at member
    exact .inl member

/-- What comes down a wire was there before, or a handler has just sent it. -/
theorem step_down {source target : OrderEntry Price} {label : OrderEntryLabel Price}
    (step : (orderEntrySystem Price).step source label target) {socket : Nat × Nat} {reqId : Nat}
    {result : OrderResult Price} (member : (reqId, result) ∈ (target.wires socket).down) :
    (reqId, result) ∈ (source.wires socket).down ∨ source.Truthful socket.1 reqId result := by
  have shrinks {changed : Nat × Nat} {after : Wire Price}
      (subset : after.down ⊆ (source.wires changed).down)
      (inAfter : (reqId, result) ∈ (Function.update source.wires changed after socket).down) :
      (reqId, result) ∈ (source.wires socket).down :=
    (Function.forall_update_iff source.wires fun socket after =>
      after.down ⊆ (source.wires socket).down).mpr
        ⟨subset, fun _ _ => List.Subset.refl _⟩ socket inAfter
  cases label with
  | connect page =>
    obtain ⟨_, rfl⟩ := step
    exact .inl (shrinks (List.nil_subset _) member)
  | closed page =>
    obtain rfl := step
    exact .inl member
  | dropped socket =>
    obtain rfl := step
    refine .inl (shrinks ?_ member)
    exact List.Subset.refl _
  | other page feed =>
    obtain ⟨_, _, rfl⟩ := step
    exact .inl member
  | request page other ticket =>
    obtain ⟨_, _, _, _, rfl⟩ := step
    refine .inl (shrinks ?_ member)
    exact List.Subset.refl _
  | refuse | timeout =>
    obtain ⟨_, rfl⟩ := step
    exact .inl member
  | receive other otherId name =>
    obtain ⟨_, _, _, _, _, _, rfl⟩ := step
    refine .inl (shrinks ?_ member)
    exact List.Subset.refl _
  | exchange label =>
    obtain ⟨_, _, _, rfl⟩ := step
    exact .inl member
  | respond name =>
    obtain ⟨task, operation, response, working, _, answered, rfl⟩ := step
    refine (mem_finish_down member).imp_right ?_
    rintro ⟨rfl, rfl, rfl⟩ _
    refine ⟨name, task.socket.2, task.ticket, operation, response, ?_, answered, rfl⟩
    rw [OrderEntry.Works, working]
    rfl
  | fail name reason =>
    obtain ⟨task, _, _, rfl⟩ := step
    refine (mem_finish_down member).imp_right ?_
    rintro ⟨_, _, rfl⟩ ok
    cases ok
  | deliver page =>
    obtain ⟨number, otherId, otherResult, rest, _, isHead, rfl⟩ := step
    refine .inl (shrinks ?_ member)
    rw [isHead]
    exact List.subset_cons_self _ _

theorem OrderEntry.Honest.step_asks {source target : OrderEntry Price}
    {label : OrderEntryLabel Price} (honest : source.Honest)
    (step : (orderEntrySystem Price).step source label target) {name : Nat} {socket : Nat × Nat}
    {reqId : Nat} {ticket : Ticket Price} {operation : Operation Price}
    (works : target.Works name socket reqId ticket)
    (calls : (target.exchange.clients name).operation? = some operation) :
    ticket.Asks operation := by
  by_cases isExchange : ∃ exchangeLabel, label = .exchange exchangeLabel
  · obtain ⟨exchangeLabel, rfl⟩ := isExchange
    obtain ⟨exchange, performed, asked, rfl⟩ := step
    rcases Linearization.step_operation? performed name with same | ⟨called, isCall, _, isCalled⟩
    · exact honest.asks name socket reqId ticket operation works (same.symm.trans calls)
    · obtain rfl := Option.some.inj (isCalled.symm.trans calls)
      obtain ⟨task, working, same⟩ := Option.map_eq_some_iff.mp works
      obtain ⟨_, isRequest⟩ := Prod.mk.inj same
      obtain ⟨_, rfl⟩ := Prod.mk.inj isRequest
      exact asked name called task isCall working
  · rcases step_tasks step name with same | ⟨_, isIdle, unchanged⟩
    · rw [step_exchange step fun exchangeLabel equal => isExchange ⟨exchangeLabel, equal⟩] at calls
      exact honest.asks name socket reqId ticket operation (same.symm.trans works) calls
    · rw [unchanged, isIdle] at calls
      cases calls

/-- Every run is honest. -/
theorem OrderEntryRun.honest {labels : List (OrderEntryLabel Price)} {state : OrderEntry Price}
    (run : OrderEntryRun labels state) : state.Honest := by
  refine run.invariant (fun _ state => state.Honest) ?_ ?_
  · rintro _ rfl
    exact ⟨fun _ _ _ member => absurd member List.not_mem_nil,
      fun _ _ _ answered => (by cases answered), fun _ _ _ _ _ works => (by cases works)⟩
  · intro labels source label target before honest step
    constructor
    · intro socket reqId result member
      rcases step_down step member with old | truthful
      · exact (honest.down socket reqId result old).step step
      · exact truthful.step step
    · intro page reqId result answered
      refine OrderEntry.Truthful.step ?_ step
      rcases step_page step page with ⟨_, _, answers⟩ | ⟨_, after⟩ | ⟨other, sent, after, origin⟩
      · rw [answers] at answered
        exact honest.answers page reqId result answered
      · rw [after] at answered
        exact honest.answers page reqId result answered
      · rw [after] at answered
        rcases Page.answers_settle answered with old | ⟨rfl, rfl⟩
        · exact honest.answers page reqId result old
        · rcases origin with failed | ⟨number, member⟩
          · exact fun ok => absurd ok (by rw [failed]; exact Bool.false_ne_true)
          · exact honest.down (page, number) reqId result member
    · exact fun name socket reqId ticket operation works calls => honest.step_asks step works calls

/-! ### The protocol -/

/-- The step of the exchange. -/
def OrderEntryLabel.exchange? : OrderEntryLabel Price →
    Option (Linearization.Label (Record Price) Nat (Operation Price) (Response Price))
  | .exchange label => some label
  | _ => none

/-- The operations that the exchange has performed, with the calls they are for. -/
def performedFor (labels : List (OrderEntryLabel Price)) : List (Nat × Record Price) :=
  Linearization.effects (labels.filterMap OrderEntryLabel.exchange?)

/-- The exchange goes through a run of its own. -/
theorem OrderEntryRun.exchangeRun {labels : List (OrderEntryLabel Price)}
    {state : OrderEntry Price} (run : OrderEntryRun labels state) :
    Run (Linearization.system (bookSystem Price) Record.operation Record.response)
      (labels.filterMap OrderEntryLabel.exchange?) state.exchange := by
  refine run.view OrderEntry.exchange OrderEntryLabel.exchange? ?_ ?_ ?_
  · rintro _ rfl
    exact ⟨rfl, fun _ => rfl⟩
  · intro source label target exchangeLabel step selected
    cases label with
    | exchange label =>
      obtain rfl := Option.some.inj selected
      obtain ⟨_, performed, _, rfl⟩ := step
      exact performed
    | _ => cases selected
  · intro source label target step selected
    refine step_exchange step ?_
    rintro exchangeLabel rfl
    cases selected

/-- A handler that works on a request has received it. -/
theorem OrderEntryRun.received {labels : List (OrderEntryLabel Price)} {state : OrderEntry Price}
    (run : OrderEntryRun labels state) {name : Nat} {socket : Nat × Nat} {reqId : Nat}
    (member : .receive socket reqId name ∈ labels) :
    ∃ ticket, state.Works name socket reqId ticket := by
  induction run with
  | start => exact absurd member List.not_mem_nil
  | next before step inductionHypothesis =>
    rcases List.mem_append.mp member with old | new
    · obtain ⟨ticket, works⟩ := inductionHypothesis old
      exact ⟨ticket, step_works step works⟩
    · obtain rfl := List.mem_singleton.mp new
      obtain ⟨ticket, _, _, _, _, _, rfl⟩ := step
      refine ⟨ticket, ?_⟩
      simp only [OrderEntry.Works, Function.update_self]
      rfl

/-- The operation that the exchange performs for a handler is the one that its page has asked
for. -/
theorem OrderEntryRun.asked {labels : List (OrderEntryLabel Price)} {state : OrderEntry Price}
    (run : OrderEntryRun labels state) {name : Nat} {socket : Nat × Nat} {reqId : Nat}
    {ticket : Ticket Price} (works : state.Works name socket reqId ticket) {record : Record Price}
    (member : (name, record) ∈ performedFor labels) :
    .request socket.1 reqId ticket ∈ labels ∧ ticket.Asks record.operation := by
  refine ⟨((OrderEntryRun.placed run).working name socket reqId ticket works).2, ?_⟩
  exact (OrderEntryRun.honest run).asks name socket reqId ticket record.operation works
    (Linearization.operation_of_effect (OrderEntryRun.exchangeRun run) member)

/-- The requests of a page have different numbers, up to its counter. -/
theorem OrderEntryRun.numbered {labels : List (OrderEntryLabel Price)} {state : OrderEntry Price}
    (run : OrderEntryRun labels state) {page reqId : Nat} {ticket : Ticket Price}
    (member : .request page reqId ticket ∈ labels) :
    (0 < reqId ∧ reqId ≤ (state.pages page).feed.reqId) ∧
      ∀ other, .request page reqId other ∈ labels → other = ticket := by
  induction run generalizing ticket with
  | start => exact absurd member List.not_mem_nil
  | @next labels source target label before step inductionHypothesis =>
    have grows : (source.pages page).feed.reqId ≤ (target.pages page).feed.reqId := by
      rcases step_page step page with ⟨same, _⟩ | ⟨canTrade, after⟩ | ⟨_, _, after, _⟩
      · exact same.symm.le
      · rw [after, canTrade.request.1]
        exact Nat.le_succ _
      · rw [after]
        exact le_rfl
    -- a request made just now has a number above the earlier ones
    have later {other : Ticket Price} (now : .request page reqId other = label) :
        (source.pages page).feed.reqId < reqId ∧ reqId ≤ (target.pages page).feed.reqId := by
      subst now
      obtain ⟨_, canTrade, _, rfl, rfl⟩ := step
      simp only [Function.update_self, canTrade.request.1]
      omega
    rcases List.mem_append.mp member with old | new
    · obtain ⟨bounds, unique⟩ := inductionHypothesis old
      refine ⟨⟨bounds.1, bounds.2.trans grows⟩, fun other otherMember => ?_⟩
      rcases List.mem_append.mp otherMember with otherOld | otherNew
      · exact unique other otherOld
      · have above := (later (List.mem_singleton.mp otherNew)).1
        omega
    · have bounds := later (List.mem_singleton.mp new)
      refine ⟨⟨by omega, bounds.2⟩, fun other otherMember => ?_⟩
      rcases List.mem_append.mp otherMember with otherOld | otherNew
      · have below := (inductionHypothesis otherOld).1.2
        omega
      · have same := (List.mem_singleton.mp otherNew).trans (List.mem_singleton.mp new).symm
        exact (OrderEntryLabel.request.inj same).2.2

end Truthful

/-! ### A short run -/

namespace Sample

/-- A page that shows the live market. -/
def livePage : Feed ℚ := { Feed.initial with source := .live, exchangeUp := true }

/-- A bid of the page. -/
def bidTicket : Ticket ℚ := .order .bid .limit (some 100) (some (7 / 2))

/-- The record of the bid. -/
def bidRecord : Record ℚ := submitRecord .empty 1 ⟨.bid, .limit, 100, 3, orderIdAt 0, "human"⟩

/-- The page opens a socket and asks for the bid; the exchange performs it and the result comes
back. -/
def bidLabels : List (OrderEntryLabel ℚ) :=
  [.other 0 livePage, .connect 0, .request 0 1 bidTicket, .receive (0, 0) 1 7,
    .exchange (.call 7 bidRecord.operation), .exchange (.perform 7 bidRecord),
    .exchange (.answer 7 bidRecord.response), .respond 7, .deliver 0]

theorem bidRun : ∃ state : OrderEntry ℚ, OrderEntryRun bidLabels state ∧
    (state.pages 0).answers 1 = some (bidTicket.result bidRecord.response) := by
  have start : OrderEntryRun [] (OrderEntry.initial : OrderEntry ℚ) := Run.start rfl
  have live : OrderEntryRun ([] ++ [OrderEntryLabel.other 0 livePage]) _ :=
    start.next ⟨rfl, rfl, rfl⟩
  have connected : OrderEntryRun (_ ++ [OrderEntryLabel.connect 0]) _ := live.next ⟨rfl, rfl⟩
  have asked : OrderEntryRun (_ ++ [OrderEntryLabel.request 0 1 bidTicket]) _ :=
    connected.next ⟨0, ⟨rfl, rfl, rfl⟩, rfl, rfl, rfl⟩
  have received : OrderEntryRun (_ ++ [OrderEntryLabel.receive (0, 0) 1 7]) _ :=
    asked.next ⟨bidTicket, [], rfl, rfl, rfl, rfl, rfl⟩
  have called : OrderEntryRun (_ ++ [OrderEntryLabel.exchange (.call 7 bidRecord.operation)]) _ :=
    received.next ⟨_, ⟨rfl, rfl⟩, fun name operation task isCall working => (by
      obtain ⟨rfl, rfl⟩ := Linearization.Label.call.inj isCall
      obtain rfl := Option.some.inj working
      exact ⟨0, by decide +kernel⟩), rfl⟩
  have performed : OrderEntryRun (_ ++ [OrderEntryLabel.exchange (.perform 7 bidRecord)]) _ :=
    called.next ⟨⟨bidRecord.after, _⟩, ⟨rfl, submitRecord_step _ _ _, rfl⟩,
      fun _ _ _ isCall => (by cases isCall), rfl⟩
  have answered :
      OrderEntryRun (_ ++ [OrderEntryLabel.exchange (.answer 7 bidRecord.response)]) _ :=
    performed.next ⟨_, ⟨_, rfl, rfl⟩, fun _ _ _ isCall => (by cases isCall), rfl⟩
  have responded : OrderEntryRun (_ ++ [OrderEntryLabel.respond 7]) _ :=
    answered.next ⟨_, _, _, rfl, rfl, rfl, rfl⟩
  have delivered : OrderEntryRun (_ ++ [OrderEntryLabel.deliver 0]) _ :=
    responded.next ⟨0, 1, bidTicket.result bidRecord.response, [], rfl, rfl, rfl⟩
  exact ⟨_, delivered, rfl⟩

end Sample

end MarketSandbox
