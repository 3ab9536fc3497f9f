/-
This file joins the exchange's telemetry, the gateway and a browser page under
one clock: batches are stamped when they are made and reach the gateway any
time later, in order; the gateway's timers fire at any time; the page connects
at any moment and hears what the gateway broadcasts. One page stands for every
page, since pages do not influence the gateway.
-/

import MarketSandbox.Web.Browser
import MarketSandbox.Web.Server

namespace MarketSandbox

open Transition

variable {Price : Type}

/-! ### The joined system -/

/-- The clock, the batches on their way to the gateway, the gateway, and a page; `latest` records
the book of the most recent batch since the exchange came up, and no step depends on it. -/
structure World (Price : Type) where
  clock : Nat
  inFlight : List (TelemetryBatch Price)
  server : Server Price
  browser : Browser Price
  latest : Option (WireBook Price)

/-- What happens. -/
inductive WorldLabel (Price : Type)
  | advance (clock : Nat)
  | process (batch : TelemetryBatch Price)
  | deliver
  | metadata
  | down
  | flush
  | startRecording (file : String)
  | stopRecording
  | connection
  | result (reqId : Nat)
  | page (label : BrowserLabel Price)

/-- A reading of the clock by the gateway, `Date.now()`. -/
def World.dateNow (world : World Price) : Int := SafeInteger.toNumber world.clock

/-- A page hears a message when its socket is open. -/
def Browser.hear (browser : Browser Price) (message : Message Price) : Browser Price :=
  match browser.socket with
  | .isOpen received => browser.receive received message
  | _ => browser

/-- A page whose socket has just opened. -/
def Browser.afterOpen (browser : Browser Price) : Browser Price :=
  { browser with socket := .isOpen [], sinceLive := [] }

/-- A page hears messages in order. -/
def Browser.hearAll (browser : Browser Price) (messages : List (Message Price)) : Browser Price :=
  messages.foldl Browser.hear browser

/-- The world after a handler of the gateway, with what the handler broadcasts. -/
def World.handle (world : World Price) (outcome : Server Price × List (Message Price)) :
    World Price :=
  { world with server := outcome.1, browser := world.browser.hearAll outcome.2 }

/-- A page's own step, in which the gateway has no part. -/
def BrowserLabel.IsLocal : BrowserLabel Price → Prop
  | .opened => False
  | .message _ => False
  | _ => True

/-- The world over its life. -/
def worldSystem (Price : Type) [Zero Price] [DecidableEq Price] :
    System (World Price) (WorldLabel Price) where
  initial world := world = ⟨0, [], .initial, .initial, none⟩
  step source label target :=
    match label with
    | .advance clock => source.clock ≤ clock ∧ target = { source with clock := clock }
    | .process batch => batch.timestamp = source.clock ∧
        target = { source with inFlight := source.inFlight ++ [batch] }
    | .deliver => ∃ batch rest, source.inFlight = batch :: rest ∧
        target =
          { source with inFlight := rest, latest := batch.decode.wireBook }.handle
            (source.server.onData batch.decode source.dateNow)
    | .metadata => target = { source with latest := none }.handle source.server.onMetadata
    | .down => target = { source with inFlight := [] }.handle source.server.down
    | .flush => target = source.handle (source.server.flush source.dateNow)
    | .startRecording file => target = source.handle (source.server.startRecording file)
    | .stopRecording => target = source.handle source.server.stopRecording
    | .connection => source.browser.socket = .connecting ∧
        target =
          { source with browser := source.browser.afterOpen }.handle
            (source.server, source.server.onConnection)
    | .result reqId => target = source.handle (source.server, [.result reqId])
    | .page label => label.IsLocal ∧ ∃ browser,
        (browserSystem Price).step source.browser label browser ∧
          target = { source with browser := browser }

/-! ### The page in the world -/

/-- A page in order, whose open socket has been greeted. -/
structure Browser.Greeted (browser : Browser Price) : Prop where
  session : Session browser
  greeted : ∀ received, browser.socket = .isOpen received → 2 < received.length

/-- A message that the gateway broadcasts. -/
def Message.IsBroadcast : Message Price → Prop
  | .hello _ => False
  | .history _ => False
  | _ => True

theorem Message.IsBroadcast.inProtocol {message : Message Price} (broadcast : message.IsBroadcast)
    {received : List (Message Price)} (greeted : 2 < received.length) :
    InProtocol received message := by
  cases message with
  | hello roster => exact absurd broadcast id
  | history batches => exact absurd broadcast id
  | status connected recording => exact .inr greeted
  | _ => exact greeted

/-- A page that is in order stays so when it hears a broadcast. -/
theorem Browser.Greeted.hear {browser : Browser Price} (greeted : browser.Greeted)
    {message : Message Price} (broadcast : message.IsBroadcast) :
    (browser.hear message).Greeted := by
  unfold Browser.hear
  split
  · next received isOpen =>
    have enough := greeted.greeted received isOpen
    refine ⟨greeted.session.receive isOpen (broadcast.inProtocol enough), fun other isOther => ?_⟩
    obtain rfl : received ++ [message] = other := Socket.isOpen.inj isOther
    rw [List.length_append]
    omega
  · exact greeted

/-- A page that hears nothing else stays in order. -/
theorem Browser.Greeted.hearAll {messages : List (Message Price)} {browser : Browser Price}
    (greeted : browser.Greeted) (broadcast : ∀ message ∈ messages, message.IsBroadcast) :
    (browser.hearAll messages).Greeted := by
  induction messages generalizing browser with
  | nil => exact greeted
  | cons message rest inductionHypothesis =>
    exact inductionHypothesis (greeted.hear (broadcast message List.mem_cons_self))
      fun other member => broadcast other (List.mem_cons_of_mem _ member)

/-- What a step of the world means for the page: it hears broadcasts, its socket opens and it is
greeted, or it takes a step of its own. -/
inductive PageStep (source : World Price) : Browser Price → Prop
  | hears (messages : List (Message Price))
      (broadcast : ∀ message ∈ messages, message.IsBroadcast) :
      PageStep source (source.browser.hearAll messages)
  | connects (connecting : source.browser.socket = .connecting) :
      PageStep source (source.browser.afterOpen.hearAll source.server.onConnection)
  | moves (label : BrowserLabel Price) (isLocal : label.IsLocal) {browser : Browser Price}
      (step : (browserSystem Price).step source.browser label browser) : PageStep source browser

theorem Message.broadcast_one {message : Message Price} (broadcast : message.IsBroadcast) :
    ∀ other ∈ [message], other.IsBroadcast := by
  intro other member
  rwa [List.mem_singleton.mp member]

/-- A handler that broadcasts no frames and leaves the history and the normalizer alone; it
announces the exchange only when the exchange is up after it. -/
structure Server.Quiet (server : Server Price) (outcome : Server Price × List (Message Price)) :
    Prop where
  broadcast : ∀ message ∈ outcome.2, message.IsBroadcast
  frames : ∀ message ∈ outcome.2, message.frames = []
  announces : ∀ recording, .status true recording ∈ outcome.2 → outcome.1.exchangeUp = true
  history : outcome.1.history = server.history
  normalizer : outcome.1.normalizer = server.normalizer

namespace Server

variable (server : Server Price)

theorem quiet_nothing : server.Quiet (server, []) :=
  ⟨fun _ member => (nomatch member), fun _ member => (nomatch member),
    fun _ member => (nomatch member), rfl, rfl⟩

/-- A handler that broadcasts its status. -/
theorem quiet_status {after : Server Price} (history : after.history = server.history)
    (normalizer : after.normalizer = server.normalizer) :
    server.Quiet (after, [after.status]) where
  broadcast := Message.broadcast_one trivial
  frames := fun message member => by
    rw [List.mem_singleton.mp member]
    rfl
  announces := fun recording member => by
    have same := List.mem_singleton.mp member
    unfold status at same
    injection same with up
    exact up.symm
  history := history
  normalizer := normalizer

theorem onMetadata_quiet : server.Quiet server.onMetadata := server.quiet_status rfl rfl

theorem down_quiet : server.Quiet server.down := by
  unfold down
  split_ifs
  · exact server.quiet_status rfl rfl
  · exact server.quiet_nothing

theorem startRecording_quiet (file : String) : server.Quiet (server.startRecording file) := by
  unfold startRecording
  split_ifs
  · exact server.quiet_nothing
  · exact server.quiet_status rfl rfl

theorem stopRecording_quiet : server.Quiet server.stopRecording := by
  unfold stopRecording
  split_ifs
  · exact server.quiet_status rfl rfl
  · exact server.quiet_nothing

/-- With no withheld book, a flush does nothing. -/
theorem flush_none {now : Int} (nothing : server.normalizer.pendingBook = none) :
    server.flush now = (server, []) := by
  have same : server.normalizer.flushBook.2 = server.normalizer := by
    unfold Normalizer.flushBook
    rw [← nothing]
  simp only [flush, same]
  simp only [Normalizer.flushBook, nothing]

/-- A flush broadcasts the withheld book. -/
theorem flush_some {now : Int} {book : WireBook Price}
    (pending : server.normalizer.pendingBook = some book) :
    server.flush now =
      ({ server with normalizer := server.normalizer.flushBook.2 }, [.book now book]) := by
  simp only [flush, Normalizer.flushBook, pending]

theorem result_quiet (reqId : Nat) : server.Quiet (server, [.result reqId]) where
  broadcast := Message.broadcast_one trivial
  frames := fun message member => by
    rw [List.mem_singleton.mp member]
    rfl
  announces := fun recording member => by
    cases List.mem_singleton.mp member
  history := rfl
  normalizer := rfl

end Server

theorem world_pageStep [Zero Price] [DecidableEq Price] {source target : World Price}
    {label : WorldLabel Price} (step : (worldSystem Price).step source label target) :
    PageStep source target.browser := by
  have nothing : ∀ message ∈ ([] : List (Message Price)), message.IsBroadcast :=
    fun _ member => nomatch member
  cases label with
  | advance clock =>
    obtain ⟨_, rfl⟩ := step
    exact .hears [] nothing
  | process batch =>
    obtain ⟨_, rfl⟩ := step
    exact .hears [] nothing
  | deliver =>
    obtain ⟨batch, rest, _, rfl⟩ := step
    exact .hears _ (Message.broadcast_one trivial)
  | metadata =>
    obtain rfl := step
    exact .hears _ source.server.onMetadata_quiet.broadcast
  | down =>
    obtain rfl := step
    exact .hears _ source.server.down_quiet.broadcast
  | flush =>
    obtain rfl := step
    refine .hears _ ?_
    simp only [Server.flush]
    split
    · exact Message.broadcast_one trivial
    · exact nothing
  | startRecording file =>
    obtain rfl := step
    exact .hears _ (source.server.startRecording_quiet file).broadcast
  | stopRecording =>
    obtain rfl := step
    exact .hears _ source.server.stopRecording_quiet.broadcast
  | connection =>
    obtain ⟨connecting, rfl⟩ := step
    exact .connects connecting
  | result reqId =>
    obtain rfl := step
    exact .hears _ (source.server.result_quiet reqId).broadcast
  | page label =>
    obtain ⟨isLocal, browser, moved, rfl⟩ := step
    exact .moves label isLocal moved

/-! ### Greetings -/

/-- The page after the greeting, message by message. -/
theorem Browser.hearAll_onConnection (browser : Browser Price) (server : Server Price) :
    browser.afterOpen.hearAll server.onConnection =
      ((browser.afterOpen.receive [] (.hello roster)).receive [.hello roster]
        server.status).receive [.hello roster, server.status] (.history server.history) := rfl

/-- The page before the history of a greeting is in order. -/
theorem Session.beforeHistory {browser : Browser Price} (session : Session browser)
    (connecting : browser.socket = .connecting) (server : Server Price) :
    Session ((browser.afterOpen.receive [] (.hello roster)).receive [.hello roster]
      server.status) := by
  have step : (browserSystem Price).step browser .opened browser.afterOpen := ⟨connecting, rfl⟩
  have opened : Session browser.afterOpen := session.step step
  have hello : Session (browser.afterOpen.receive [] (.hello roster)) := opened.receive rfl rfl
  exact hello.receive rfl (.inl rfl)

/-- A page's own step keeps the messages received on its socket, and makes no page live. -/
theorem Session.moves {browser target : Browser Price} (session : Session browser)
    {label : BrowserLabel Price} (isLocal : label.IsLocal)
    (step : (browserSystem Price).step browser label target) :
    (∀ received, target.socket = .isOpen received → browser.socket = .isOpen received) ∧
      (target.feed.source = .live →
        browser.feed.source = .live ∧ target.sinceLive = browser.sinceLive) := by
  have waits : browser.socket = .closed → browser.feed.source ≠ .live := fun closed =>
    session.notLive fun received isOpen => by
      rw [closed] at isOpen
      cases isOpen
  cases label with
  | start reachable constructed =>
    obtain ⟨notStarted, rfl⟩ := step
    have closed := session.idle (.inl notStarted)
    constructor
    · intro received isOpen
      simp only [Browser.start, Browser.connect, Browser.download] at isOpen
      split_ifs at isOpen <;> simp [closed] at isOpen
    · intro live
      refine absurd ?_ (waits closed)
      simp only [Browser.start, Browser.connect, Browser.download] at live
      split_ifs at live <;> exact live
  | startTimer =>
    obtain ⟨_, rfl⟩ := step
    exact ⟨fun _ isOpen => isOpen, fun live => ⟨live, rfl⟩⟩
  | retry constructed =>
    obtain ⟨timer, rfl⟩ := step
    have closed := session.idle (.inr timer)
    constructor
    · intro received isOpen
      simp only [Browser.connect] at isOpen
      split_ifs at isOpen
      simp [closed] at isOpen
    · intro live
      refine absurd ?_ (waits closed)
      simp only [Browser.connect] at live
      split_ifs at live <;> exact live
  | opened => exact absurd isLocal id
  | closed =>
    obtain ⟨_, rfl⟩ := step
    refine ⟨fun _ isOpen => ?_, fun live => ?_⟩
    · cases isOpen
    · exact absurd live (Feed.onClose_source _)
  | message message => exact absurd isLocal id
  | downloaded download now =>
    obtain ⟨_, rfl⟩ := step
    exact ⟨fun _ isOpen => isOpen, fun live => ⟨(afterDownload_live live).1, rfl⟩⟩
  | control control =>
    obtain rfl := step
    exact ⟨fun _ isOpen => isOpen,
      fun live => ⟨(browser.perform_keeps control).2.symm.trans live, rfl⟩⟩

theorem worldRun_greeted [Zero Price] [DecidableEq Price] {labels : List (WorldLabel Price)}
    {world : World Price} (run : Run (worldSystem Price) labels world) : world.browser.Greeted := by
  refine run.invariant (fun _ world => world.browser.Greeted) ?_ ?_
  · rintro world rfl
    exact ⟨browserRun_session (.start rfl), fun _ isOpen => (nomatch isOpen)⟩
  · intro labels source label target _ greeted step
    have page := world_pageStep step
    generalize target.browser = browser at page ⊢
    cases page with
    | hears messages broadcast => exact greeted.hearAll broadcast
    | connects connecting =>
      rw [Browser.hearAll_onConnection]
      refine ⟨(greeted.session.beforeHistory connecting _).receive rfl rfl, ?_⟩
      rintro received isOpen
      obtain rfl := Socket.isOpen.inj isOpen
      exact Nat.lt_succ_self 2
    | moves label isLocal step =>
      refine ⟨greeted.session.step step, fun received isOpen => ?_⟩
      exact greeted.greeted received ((greeted.session.moves isLocal step).1 received isOpen)

/-- The labels of a run say which state it reaches. -/
theorem worldRun_unique [Zero Price] [DecidableEq Price] {labels : List (WorldLabel Price)}
    {first second : World Price} (left : Run (worldSystem Price) labels first)
    (right : Run (worldSystem Price) labels second) : first = second := by
  refine left.unique right (fun _ _ one other => one.trans other.symm) ?_
  intro source label one other left right
  cases label with
  | advance clock => exact left.2.trans right.2.symm
  | process batch => exact left.2.trans right.2.symm
  | deliver =>
    obtain ⟨batch, rest, inFlight, rfl⟩ := left
    obtain ⟨also, others, isAlso, rfl⟩ := right
    obtain ⟨rfl, rfl⟩ := List.cons.inj (inFlight.symm.trans isAlso)
    rfl
  | connection => exact left.2.trans right.2.symm
  | page label =>
    obtain ⟨_, browser, moved, rfl⟩ := left
    obtain ⟨_, also, isAlso, rfl⟩ := right
    rw [browserStep_unique moved isAlso]
  | _ => exact left.trans right.symm

/-! ### What a page has shown since it went live -/

/-- A live page that hears a message holds its frames after what it held, or nothing. -/
theorem Session.hear_sinceLive {browser : Browser Price} (session : Session browser)
    {message : Message Price} (before after : List (Frame Price) → Prop) (empty : after [])
    (append : ∀ frames, before frames → after (frames ++ message.frames))
    (held : browser.feed.source = .live → before browser.sinceLive)
    (live : (browser.hear message).feed.source = .live) :
    after (browser.hear message).sinceLive := by
  unfold Browser.hear at live ⊢
  split at live
  · next received isOpen =>
    change after (if _ then [] else browser.sinceLive ++ message.frames)
    by_cases was : browser.feed.source = .live
    · rw [if_neg fun switches => switches.2 was]
      exact append _ (held was)
    · rw [if_pos ⟨live, was⟩]
      exact empty
  · next notOpen => exact absurd live (session.notLive notOpen)

/-- Messages without frames add nothing. -/
theorem Browser.Greeted.hearAll_sinceLive {messages : List (Message Price)}
    {browser : Browser Price} (greeted : browser.Greeted)
    (broadcast : ∀ message ∈ messages, message.IsBroadcast)
    (quiet : ∀ message ∈ messages, message.frames = []) (held : List (Frame Price) → Prop)
    (empty : held []) (before : browser.feed.source = .live → held browser.sinceLive)
    (live : (browser.hearAll messages).feed.source = .live) :
    held (browser.hearAll messages).sinceLive := by
  induction messages generalizing browser with
  | nil => exact before live
  | cons message rest inductionHypothesis =>
    refine inductionHypothesis (greeted.hear (broadcast message List.mem_cons_self))
      (fun other member => broadcast other (List.mem_cons_of_mem _ member))
      (fun other member => quiet other (List.mem_cons_of_mem _ member))
      (greeted.session.hear_sinceLive held held empty (fun frames kept => ?_) before) live
    rwa [quiet message List.mem_cons_self, List.append_nil]

/-- A live page that has just been greeted holds the history. -/
theorem Session.sinceLive_onConnection {browser : Browser Price} (session : Session browser)
    (connecting : browser.socket = .connecting) (server : Server Price)
    {held : List (Frame Price) → Prop} (empty : held [])
    (history : held (server.history.map .batch))
    (live : (browser.afterOpen.hearAll server.onConnection).feed.source = .live) :
    held (browser.afterOpen.hearAll server.onConnection).sinceLive := by
  have greeted := session.beforeHistory connecting server
  rw [Browser.hearAll_onConnection] at live ⊢
  refine greeted.hear_sinceLive (fun frames => frames = []) held empty ?_ ?_ live
  · rintro frames rfl
    exact history
  · exact greeted.greeting _ rfl le_rfl

/-! ### A short life -/

namespace Sample

/-- The batch of a record. -/
def batchOf (record : Record ℚ) : TelemetryBatch ℚ :=
  (record.telemetry ⟨record.timestamp, 0, 0, 0, 0, 0, 0⟩).toProto

/-- Three bids rest one after the other. -/
def firstBid : Record ℚ := submitRecord .empty 1000 ⟨.bid, .limit, 100, 5, "ORD-0", "mm-1"⟩

def secondBid : Record ℚ := submitRecord firstBid.after 1010 ⟨.bid, .limit, 99, 5, "ORD-1", "mm-1"⟩

def thirdBid : Record ℚ := submitRecord secondBid.after 1020 ⟨.bid, .limit, 98, 5, "ORD-2", "mm-1"⟩

/-- The world at time 1000: the exchange is up, and a page is connecting. -/
def listening : World ℚ where
  clock := 1000
  inFlight := []
  server := { Server.initial with alive := true, exchangeUp := true }
  browser := Browser.initial.start true true
  latest := none

/-- What leads to it. -/
def untilListening : List (WorldLabel ℚ) := [.advance 1000, .metadata, .page (.start true true)]

/-- The world after a batch is made at a later time and is still on its way. -/
def made (world : World ℚ) (record : Record ℚ) : World ℚ :=
  { world with clock := record.timestamp, inFlight := world.inFlight ++ [batchOf record] }

/-- The world after the oldest batch on its way is delivered. -/
def arrived (world : World ℚ) : World ℚ :=
  match world.inFlight with
  | [] => world
  | batch :: rest =>
    { world with inFlight := rest, latest := batch.decode.wireBook }.handle
      (world.server.onData batch.decode world.dateNow)

/-- The world after a flush at time 1050. -/
def flushed (world : World ℚ) : World ℚ :=
  { world with clock := 1050 }.handle (world.server.flush 1050)

/-- The world after a page has connected. -/
def greeted (world : World ℚ) : World ℚ :=
  { world with browser := world.browser.afterOpen }.handle
    (world.server, world.server.onConnection)

section Runs

variable {allowed : World ℚ → WorldLabel ℚ → Prop} {labels : List (WorldLabel ℚ)}
  {world : World ℚ}

theorem listening_run (free : ∀ world label, label ≠ .flush → allowed world label) :
    Run ((worldSystem ℚ).restrict allowed) untilListening listening := by
  have start : Run ((worldSystem ℚ).restrict allowed) [] ⟨0, [], .initial, .initial, none⟩ :=
    .start rfl
  have late : Run ((worldSystem ℚ).restrict allowed) [.advance 1000]
      ⟨1000, [], .initial, .initial, none⟩ :=
    start.next ⟨free _ _ (fun same => nomatch same), Nat.zero_le _, rfl⟩
  have up : Run ((worldSystem ℚ).restrict allowed) [.advance 1000, .metadata]
      ⟨1000, [], { Server.initial with alive := true, exchangeUp := true }, .initial, none⟩ :=
    late.next ⟨free _ _ (fun same => nomatch same), rfl⟩
  exact up.next ⟨free _ _ (fun same => nomatch same), trivial, _, ⟨rfl, rfl⟩, rfl⟩

theorem made_run (free : ∀ world label, label ≠ .flush → allowed world label)
    (run : Run ((worldSystem ℚ).restrict allowed) labels world)
    (record : Record ℚ) (later : world.clock ≤ record.timestamp) :
    Run ((worldSystem ℚ).restrict allowed)
      (labels ++ [WorldLabel.advance record.timestamp] ++ [WorldLabel.process (batchOf record)])
      (made world record) := by
  have advanced : Run ((worldSystem ℚ).restrict allowed)
      (labels ++ [WorldLabel.advance record.timestamp]) { world with clock := record.timestamp } :=
    run.next ⟨free _ _ (fun same => nomatch same), later, rfl⟩
  refine advanced.next ⟨free _ _ (fun same => nomatch same), ?_, rfl⟩
  change (record.telemetry _).timestamp = record.timestamp
  unfold Record.telemetry
  split <;> rfl

theorem arrived_run (free : ∀ world label, label ≠ .flush → allowed world label)
    (run : Run ((worldSystem ℚ).restrict allowed) labels world) (flying : world.inFlight ≠ []) :
    Run ((worldSystem ℚ).restrict allowed) (labels ++ [WorldLabel.deliver]) (arrived world) := by
  obtain ⟨batch, rest, first⟩ := List.exists_cons_of_ne_nil flying
  refine run.next ⟨free _ _ (fun same => nomatch same), batch, rest, first, ?_⟩
  rw [arrived, first]

end Runs

end Sample

end MarketSandbox
