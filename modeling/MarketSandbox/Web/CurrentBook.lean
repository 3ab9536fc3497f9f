/-
This file shows when a live page has the current book. A book reaches a page
inside a batch, in a frame of its own when it is flushed, or with the history
when the page connects; but a flushed book is in no batch of the history. The
law holds in exactly the runs in which no page connects while the newest book
of the history is not the book of the most recent batch.
-/

import MarketSandbox.Gateway.Throttling
import MarketSandbox.Web.Derive
import MarketSandbox.Web.World

namespace MarketSandbox

open Transition

variable {Price : Type}

/-! ### The law -/

/-- The frames in messages received. -/
def framesOf (received : List (Message Price)) : List (Frame Price) :=
  received.flatMap Message.frames

/-- A live page shows the book of the most recent batch when no book is withheld. -/
def World.ShowsCurrent (world : World Price) : Prop :=
  world.browser.feed.source = .live → world.server.normalizer.pendingBook = none →
    ∀ book, world.latest = some book → ∀ received, world.browser.socket = .isOpen received →
      bookAt (framesOf received) ((framesOf received).length - 1) = some book

/-- When the exchange is up and no book is withheld, the newest book in the history is the book
of the most recent batch. -/
def World.GreetsCurrent (world : World Price) : Prop :=
  world.server.exchangeUp = true → world.server.normalizer.pendingBook = none →
    ∀ book, world.latest = some book →
      newestBook (world.server.history.map .batch) = some book

section Runs

variable [Zero Price] [DecidableEq Price]

/-- Every live page shows the current book at every moment of a run. -/
def AlwaysCurrent (labels : List (WorldLabel Price)) : Prop :=
  ∀ front back world, labels = front ++ back → Run (worldSystem Price) front world →
    world.ShowsCurrent

/-- Every connection of a run is greeted with the current book. -/
def GreetingsCurrent (labels : List (WorldLabel Price)) : Prop :=
  ∀ front back world, labels = front ++ .connection :: back → Run (worldSystem Price) front world →
    world.GreetsCurrent

end Runs

/-! ### Messages received -/

theorem framesOf_append (received messages : List (Message Price)) :
    framesOf (received ++ messages) = framesOf received ++ framesOf messages :=
  List.flatMap_append

theorem framesOf_eq_nil {messages : List (Message Price)}
    (quiet : ∀ message ∈ messages, message.frames = []) : framesOf messages = [] :=
  List.flatMap_eq_nil_iff.mpr quiet

/-- A page that hears messages has received them on its open socket. -/
theorem Browser.hearAll_socket (messages : List (Message Price)) {browser : Browser Price}
    {received : List (Message Price)}
    (isOpen : (browser.hearAll messages).socket = .isOpen received) :
    ∃ earlier, browser.socket = .isOpen earlier ∧ received = earlier ++ messages := by
  induction messages generalizing browser with
  | nil => exact ⟨received, isOpen, (List.append_nil _).symm⟩
  | cons message rest inductionHypothesis =>
    obtain ⟨middle, heard, rfl⟩ := inductionHypothesis isOpen
    unfold Browser.hear at heard
    split at heard
    · next earlier wasOpen =>
      obtain rfl : earlier ++ [message] = middle := Socket.isOpen.inj heard
      exact ⟨earlier, wasOpen, by rw [List.append_assoc, List.singleton_append]⟩
    · next notOpen => exact absurd heard (notOpen middle)

/-- A page goes live only when it hears that the exchange is connected. -/
theorem Browser.hearAll_live (messages : List (Message Price)) {browser : Browser Price}
    (live : (browser.hearAll messages).feed.source = .live) :
    browser.feed.source = .live ∨ ∃ recording, .status true recording ∈ messages := by
  induction messages generalizing browser with
  | nil => exact .inl live
  | cons message rest inductionHypothesis =>
    rcases inductionHypothesis live with heard | ⟨recording, member⟩
    · by_cases was : browser.feed.source = .live
      · exact .inl was
      · unfold Browser.hear at heard
        split at heard
        · obtain ⟨recording, rfl⟩ := (Session.receive_notLive message was).1.mp heard
          exact .inr ⟨recording, List.mem_cons_self⟩
        · exact .inl heard
    · exact .inr ⟨recording, List.mem_cons_of_mem _ member⟩

/-- A greeting has the frames of the history. -/
theorem framesOf_onConnection (server : Server Price) :
    framesOf server.onConnection = server.history.map .batch := by
  simp [framesOf, Server.onConnection, Server.status, Message.frames]

/-! ### The invariant -/

/-- A withheld book is the current one, and when none is withheld a page that is live, or that
would be greeted by an exchange that is up, has received the current one last. -/
structure Current (world : World Price) : Prop where
  pending : ∀ book, world.server.normalizer.pendingBook = some book →
    ∀ latest, world.latest = some latest → latest = book
  received : world.server.exchangeUp = true ∨ world.browser.feed.source = .live →
    world.server.normalizer.pendingBook = none → ∀ book, world.latest = some book →
      ∀ received, world.browser.socket = .isOpen received →
        newestBook (framesOf received) = some book

namespace Current

variable {world : World Price}

/-- A quiet handler after which the exchange is up only if it was keeps a world current. -/
theorem quiet (current : Current world) {outcome : Server Price × List (Message Price)}
    (quiet : world.server.Quiet outcome)
    (up : outcome.1.exchangeUp = true → world.server.exchangeUp = true) {target : World Price}
    (server : target.server = outcome.1)
    (page : target.browser = world.browser.hearAll outcome.2)
    (latest : target.latest = world.latest) : Current target := by
  constructor
  · rw [server, quiet.normalizer, latest]
    exact current.pending
  · rw [server, quiet.normalizer, latest, page]
    intro shows nothing book isLatest received isOpen
    obtain ⟨earlier, wasOpen, rfl⟩ := Browser.hearAll_socket _ isOpen
    rw [framesOf_append, framesOf_eq_nil quiet.frames, List.append_nil]
    refine current.received ?_ nothing book isLatest earlier wasOpen
    rcases shows with isUp | live
    · exact .inl (up isUp)
    · rcases Browser.hearAll_live _ live with was | ⟨recording, announced⟩
      · exact .inr was
      · exact .inl (up (quiet.announces recording announced))

theorem flush (current : Current world) :
    Current (world.handle (world.server.flush world.dateNow)) := by
  cases pending : world.server.normalizer.pendingBook with
  | none =>
    rw [Server.flush_none _ pending]
    exact current
  | some book =>
    rw [Server.flush_some _ pending]
    refine ⟨fun _ withheld => (nomatch withheld), fun _ _ shown isLatest received isOpen => ?_⟩
    obtain ⟨earlier, _, rfl⟩ := Browser.hearAll_socket _ isOpen
    obtain rfl := current.pending book pending shown isLatest
    rw [framesOf_append]
    exact newestBook_concat _ _

theorem connection (current : Current world) (session : Session world.browser)
    (connecting : world.browser.socket = .connecting) (greets : world.GreetsCurrent) :
    Current
      ({ world with browser := world.browser.afterOpen }.handle
        (world.server, world.server.onConnection)) := by
  refine ⟨current.pending, fun shows nothing book isLatest received isOpen => ?_⟩
  obtain ⟨earlier, wasOpen, rfl⟩ := Browser.hearAll_socket _ isOpen
  obtain rfl : [] = earlier := Socket.isOpen.inj wasOpen
  have up : world.server.exchangeUp = true := by
    rcases shows with up | live
    · exact up
    · rcases Browser.hearAll_live _ live with was | ⟨recording, announced⟩
      · exact absurd was (session.notLive fun received isOpen => by
          rw [connecting] at isOpen
          cases isOpen)
      · rcases List.mem_cons.mp announced with isHello | others
        · cases isHello
        · rcases List.mem_cons.mp others with isStatus | isHistory
          · unfold Server.status at isStatus
            injection isStatus with up
            exact up.symm
          · cases List.mem_singleton.mp isHistory
  rw [List.nil_append, framesOf_onConnection]
  exact greets up nothing book isLatest

theorem deliver [Zero Price] [DecidableEq Price] {batch : TelemetryBatch Price}
    {target : World Price} (latest : target.latest = batch.decode.wireBook)
    (normalizer : target.server.normalizer =
      (world.server.normalizer.normalize batch.decode world.dateNow).2)
    (page : target.browser = world.browser.hearAll
      [.batch (world.server.normalizer.normalize batch.decode world.dateNow).1]) :
    Current target := by
  obtain ⟨book, carries⟩ : ∃ book, batch.decode.wireBook = some book := ⟨_, rfl⟩
  rcases Normalizer.normalize_book world.server.normalizer batch.decode world.dateNow carries with
    ⟨sent, nothing⟩ | ⟨_, withheld⟩
  · refine ⟨fun other pending => ?_, fun _ _ shown isLatest received isOpen => ?_⟩
    · rw [normalizer, nothing] at pending
      cases pending
    · rw [page] at isOpen
      obtain ⟨earlier, _, rfl⟩ := Browser.hearAll_socket _ isOpen
      rw [← isLatest, latest, carries, framesOf_append]
      refine (newestBook_concat _ _).trans ?_
      change Option.or (WireBatch.book _) _ = _
      rw [sent]
      rfl
  · refine ⟨fun other pending shown isLatest => ?_, fun _ nothing => ?_⟩
    · rw [normalizer, withheld] at pending
      rw [latest, carries] at isLatest
      exact (Option.some.inj isLatest).symm.trans (Option.some.inj pending)
    · rw [normalizer, withheld] at nothing
      cases nothing

theorem step [Zero Price] [DecidableEq Price] (current : Current world)
    (session : Session world.browser) {target : World Price} {label : WorldLabel Price}
    (greets : label = .connection → world.GreetsCurrent)
    (step : (worldSystem Price).step world label target) : Current target := by
  cases label with
  | advance clock =>
    obtain ⟨_, rfl⟩ := step
    exact ⟨current.pending, current.received⟩
  | process batch =>
    obtain ⟨_, rfl⟩ := step
    exact ⟨current.pending, current.received⟩
  | deliver =>
    obtain ⟨batch, rest, _, rfl⟩ := step
    exact .deliver rfl rfl rfl
  | metadata =>
    obtain rfl := step
    exact ⟨fun _ _ _ none => (nomatch none), fun _ _ _ none => (nomatch none)⟩
  | down =>
    obtain rfl := step
    refine current.quiet world.server.down_quiet ?_ rfl rfl rfl
    unfold Server.down
    split_ifs
    · exact fun up => (nomatch up)
    · exact id
  | flush =>
    obtain rfl := step
    exact current.flush
  | startRecording file =>
    obtain rfl := step
    refine current.quiet (world.server.startRecording_quiet file) ?_ rfl rfl rfl
    unfold Server.startRecording
    split_ifs <;> exact id
  | stopRecording =>
    obtain rfl := step
    refine current.quiet world.server.stopRecording_quiet ?_ rfl rfl rfl
    unfold Server.stopRecording
    split_ifs <;> exact id
  | connection =>
    obtain ⟨connecting, rfl⟩ := step
    exact current.connection session connecting (greets rfl)
  | result reqId =>
    obtain rfl := step
    exact current.quiet (world.server.result_quiet reqId) id rfl rfl rfl
  | page label =>
    obtain ⟨isLocal, browser, moved, rfl⟩ := step
    obtain ⟨socket, live⟩ := session.moves isLocal moved
    refine ⟨current.pending, fun shows nothing book isLatest received isOpen => ?_⟩
    exact current.received (shows.imp_right fun now => (live now).1) nothing book isLatest received
      (socket received isOpen)

end Current

/-! ### Runs -/

/-- A page that has just been greeted by an exchange that is up is live, and has received the
history. -/
theorem Session.live_onConnection {browser : Browser Price} (session : Session browser)
    (connecting : browser.socket = .connecting) {server : Server Price}
    (up : server.exchangeUp = true) :
    (browser.afterOpen.hearAll server.onConnection).feed.source = .live := by
  rw [Browser.hearAll_onConnection]
  have status : server.status = .status true server.recorder := by rw [Server.status, up]
  have notLive : browser.feed.source ≠ .live := session.notLive fun received isOpen => by
    rw [connecting] at isOpen
    cases isOpen
  have live : ((browser.afterOpen.receive [] (.hello roster)).receive [.hello roster]
      server.status).feed.source = .live := by
    refine (Session.receive_notLive server.status ?_).1.mpr ⟨_, status⟩
    exact notLive
  have inProtocol : InProtocol [.hello roster, server.status] (.history server.history) := rfl
  exact ((session.beforeHistory connecting server).receive_live rfl inProtocol live).1

section Exactly

variable [Zero Price] [DecidableEq Price]

theorem GreetingsCurrent.earlier {labels : List (WorldLabel Price)} {label : WorldLabel Price}
    (greetings : GreetingsCurrent (labels ++ [label])) : GreetingsCurrent labels := by
  rintro front back world rfl
  exact greetings front (back ++ [label]) world (by simp)

theorem worldRun_current {labels : List (WorldLabel Price)} {world : World Price}
    (run : Run (worldSystem Price) labels world) (greetings : GreetingsCurrent labels) :
    Current world := by
  refine @Run.invariant_of_admissible _ _ (worldSystem Price) GreetingsCurrent
    (fun _ world => Current world) labels world (fun _ _ => GreetingsCurrent.earlier) ?_ ?_ run
    greetings
  · rintro world rfl
    exact ⟨fun _ _ _ none => (nomatch none), fun _ _ _ none => (nomatch none)⟩
  · intro labels source label target before admitted current step
    refine current.step (worldRun_greeted before).session (fun connects => ?_) step
    subst connects
    exact admitted labels [] source rfl before

/-- Every live page shows the current book in exactly the runs in which no page connects while the
newest book of the history is not the current one. -/
theorem always_current_iff {labels : List (WorldLabel Price)} {world : World Price}
    (run : Run (worldSystem Price) labels world) :
    AlwaysCurrent labels ↔ GreetingsCurrent labels := by
  constructor
  · rintro always front back source rfl before up nothing book isLatest
    obtain ⟨reached, prior, steps⟩ := run.split
    obtain rfl := worldRun_unique before prior
    cases steps with
    | @cons _ second _ _ _ step _ =>
      have current :=
        always (front ++ [WorldLabel.connection]) back second (by simp) (before.next step)
      obtain ⟨connecting, rfl⟩ := step
      have session := (worldRun_greeted before).session
      have shown := current (session.live_onConnection connecting up) nothing book isLatest _ rfl
      rw [bookAt_last] at shown
      change newestBook (framesOf source.server.onConnection) = some book at shown
      rwa [framesOf_onConnection] at shown
  · rintro greetings front back reached rfl before live nothing book isLatest received isOpen
    have early : GreetingsCurrent front := fun early late source split =>
      greetings early (late ++ back) source (by rw [split]; simp)
    rw [bookAt_last]
    exact (worldRun_current before early).received (.inr live) nothing book isLatest received isOpen

end Exactly

namespace Sample

theorem free (_ : World ℚ) (label : WorldLabel ℚ) (_ : label ≠ .flush) : True := trivial

/-- A page connects, and then a book is sent and another one is withheld and flushed. -/
def watched : List (WorldLabel ℚ) :=
  untilListening ++ WorldLabel.connection ::
    [.advance 1000, .process (batchOf firstBid), .deliver, .advance 1010,
      .process (batchOf secondBid), .deliver, .advance 1050, .flush]

/-- The world in which the second book is withheld. -/
def watching : World ℚ := arrived (made (arrived (made (greeted listening) firstBid)) secondBid)

theorem watched_run : ∃ world, Run (worldSystem ℚ) watched world := by
  have connected : Run ((worldSystem ℚ).restrict fun _ _ => True)
      (untilListening ++ [WorldLabel.connection])
      (greeted listening) := (listening_run free).next ⟨trivial, rfl, rfl⟩
  have first := arrived_run free (made_run free connected firstBid (by decide))
    (List.cons_ne_nil _ _)
  have second := arrived_run free (made_run free first secondBid (by decide))
    (List.cons_ne_nil _ _)
  have late : Run ((worldSystem ℚ).restrict fun _ _ => True) (_ ++ [WorldLabel.advance 1050])
      { watching with clock := 1050 } :=
    second.next ⟨trivial, by decide, rfl⟩
  have flush : Run ((worldSystem ℚ).restrict fun _ _ => True) (_ ++ [WorldLabel.flush])
      (flushed watching) := late.next ⟨trivial, rfl⟩
  exact ⟨_, flush.of_restrict⟩

theorem watched_greetings : GreetingsCurrent watched := by
  intro front back world split before _ _ book isLatest
  obtain ⟨rfl, _, _⟩ :=
    (List.append_cons_inj_of_notMem (by simp [untilListening]) (by simp)).mp split
  obtain rfl := worldRun_unique before (listening_run free).of_restrict
  cases isLatest

end Sample

theorem always_current_iff_sample : AlwaysCurrent Sample.watched := by
  obtain ⟨world, run⟩ := Sample.watched_run
  exact (always_current_iff run).mpr Sample.watched_greetings

/-! ### A greeting after a flush -/

namespace Sample

/-- The world after two bids whose batches reached the gateway while no page was connected; the
book of the second has been flushed. -/
def unwatched : World ℚ := flushed (arrived (made (arrived (made listening firstBid)) secondBid))

theorem unwatched_run : ∃ labels, Run (worldSystem ℚ) labels (greeted unwatched) := by
  have first := arrived_run free (made_run free (listening_run free) firstBid (by decide))
    (List.cons_ne_nil _ _)
  have second := arrived_run free (made_run free first secondBid (by decide))
    (List.cons_ne_nil _ _)
  have late : Run ((worldSystem ℚ).restrict fun _ _ => True) (_ ++ [WorldLabel.advance 1050])
      { arrived (made (arrived (made listening firstBid)) secondBid) with clock := 1050 } :=
    second.next ⟨trivial, by decide, rfl⟩
  have flush : Run ((worldSystem ℚ).restrict fun _ _ => True) (_ ++ [WorldLabel.flush]) unwatched :=
    late.next ⟨trivial, rfl⟩
  have connected : Run ((worldSystem ℚ).restrict fun _ _ => True) (_ ++ [WorldLabel.connection])
      (greeted unwatched) := flush.next ⟨trivial, rfl, rfl⟩
  exact ⟨_, connected.of_restrict⟩

end Sample

/-- A page that connects after a withheld book was flushed shows an older book. -/
theorem flushed_book_missed :
    ¬ ∀ (labels : List (WorldLabel ℚ)) (world : World ℚ), Run (worldSystem ℚ) labels world →
      world.ShowsCurrent := by
  intro always
  obtain ⟨labels, run⟩ := Sample.unwatched_run
  have shown := always labels _ run (by decide +kernel) rfl _ rfl _ rfl
  rw [bookAt_last] at shown
  have levels := congrArg (Option.map fun book => book.bids.length) shown
  exact absurd levels (by decide +kernel)

end MarketSandbox
