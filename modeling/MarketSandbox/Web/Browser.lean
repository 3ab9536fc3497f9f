/-
This file models a browser page over its whole life: the socket with its
retries, the start-up timer, the downloads of the recording under way, the
gateway's messages and the controls of the page, in any interleaving. It shows
exactly when a page whose gateway says that the exchange is connected stays
live and holds what it has received since it switched to live: exactly when no
download of the recording fails while the gateway says so.
-/

import MarketSandbox.Library.Transition
import MarketSandbox.Web.Feed

namespace MarketSandbox

open Transition

variable {Price : Type}

/-! ### The page -/

/-- The frames in a message. -/
def Message.frames : Message Price → List (Frame Price)
  | .history batches => batches.map .batch
  | .batch wire => [.batch wire]
  | .book atTime shown => [.book atTime shown]
  | _ => []

/-- What the last `status` message said. -/
def lastStatus : List (Message Price) → Option Bool
  | [] => none
  | .status connected _ :: rest => (lastStatus rest).or (some connected)
  | _ :: rest => lastStatus rest

/-- The order of the messages on a socket: the gateway's connection handler sends `hello`,
`status` and `history`, and neither `hello` nor `history` is sent again. -/
def InProtocol (received : List (Message Price)) : Message Price → Prop
  | .hello _ => received.length = 0
  | .status _ _ => received.length = 1 ∨ 2 < received.length
  | .history _ => received.length = 2
  | _ => 2 < received.length

/-- The socket, with the messages received on it. -/
inductive Socket (Price : Type)
  | closed
  | connecting
  | isOpen (received : List (Message Price))

/-- The page; `sinceLive` records the frames received on the socket since the feed last switched
to live, and no step depends on it. -/
structure Browser (Price : Type) where
  feed : Feed Price
  socket : Socket Price
  started : Bool
  startTimer : Bool
  retryTimer : Bool
  downloads : Nat
  sinceLive : List (Frame Price)

/-- A control of the page, or its animation frame. -/
inductive Control
  | tick (now : ℚ)
  | takeNew
  | seek (vt now : ℚ)
  | goLive (now : ℚ)
  | togglePlay (now : ℚ)
  | setSpeed (speed now : ℚ)
  | step
  | request
  | requestTimeout (reqId : Nat)

/-- What happens to a page. -/
inductive BrowserLabel (Price : Type)
  | start (reachable constructed : Bool)
  | startTimer
  | retry (constructed : Bool)
  | opened
  | closed
  | message (message : Message Price)
  | downloaded (download : Download Price) (now : ℚ)
  | control (control : Control)

namespace Browser

/-- A page that has not started. -/
def initial : Browser Price := ⟨.initial, .closed, false, false, false, 0, []⟩

variable (browser : Browser Price)

/-- Start a download when a method of the feed says so. -/
def download (starts : Bool) : Browser Price :=
  { browser with downloads := browser.downloads + starts.toNat }

/-- `connect`; when the socket cannot be constructed, `scheduleRetry`. -/
def connect (constructed : Bool) : Browser Price :=
  if constructed then { browser with socket := .connecting }
  else { browser with retryTimer := true }

/-- `start`. -/
def start (reachable constructed : Bool) : Browser Price :=
  if reachable then { browser.connect constructed with started := true, startTimer := true }
  else { browser with started := true }.download browser.feed.useReplay

/-- The start-up timer. -/
def startUp : Browser Price :=
  { browser with startTimer := false }.download
    (browser.feed.source = Source.connecting && browser.feed.useReplay)

/-- The page after a message. -/
def receive (received : List (Message Price)) (message : Message Price) : Browser Price :=
  let after := browser.feed.onMessage message
  { browser with
    feed := after.1
    socket := .isOpen (received ++ [message])
    sinceLive :=
      if after.1.source = Source.live ∧ browser.feed.source ≠ Source.live then []
      else browser.sinceLive ++ message.frames }.download after.2

/-- The page after its socket closes. -/
def close : Browser Price :=
  let after := browser.feed.onClose
  { browser with feed := after.1, socket := .closed, retryTimer := true }.download after.2

/-- The page after a control. -/
def perform (control : Control) : Feed Price :=
  match control with
  | .tick now => browser.feed.tick now
  | .takeNew => browser.feed.takeNew.1
  | .seek vt now => browser.feed.seek vt now
  | .goLive now => browser.feed.goLive now
  | .togglePlay now => browser.feed.togglePlay now
  | .setSpeed speed now => browser.feed.setSpeed speed now
  | .step => browser.feed.step.1
  | .request => browser.feed.request (match browser.socket with | .isOpen _ => true | _ => false)
  | .requestTimeout reqId => browser.feed.requestTimeout reqId

/-- The socket is open, and the last status received on it said that the exchange is
connected. -/
def Connected : Prop :=
  ∃ received, browser.socket = .isOpen received ∧ lastStatus received = some true

end Browser

/-- The page over its life. -/
def browserSystem (Price : Type) : System (Browser Price) (BrowserLabel Price) where
  initial browser := browser = .initial
  step source label target :=
    match label with
    | .start reachable constructed =>
      source.started = false ∧ target = source.start reachable constructed
    | .startTimer => source.startTimer = true ∧ target = source.startUp
    | .retry constructed =>
      source.retryTimer = true ∧ target = { source with retryTimer := false }.connect constructed
    | .opened =>
      source.socket = .connecting ∧ target = { source with socket := .isOpen [], sinceLive := [] }
    | .closed => source.socket ≠ .closed ∧ target = source.close
    | .message message => ∃ received, source.socket = .isOpen received ∧
        InProtocol received message ∧ target = source.receive received message
    | .downloaded download now => 0 < source.downloads ∧
        target =
          { source with
            feed := source.feed.afterDownload download now
            downloads := source.downloads - 1 }
    | .control control => target = { source with feed := source.perform control }

/-! ### What the claim of liveness says -/

/-- All the frames received are in the feed, exactly once and in order, except the oldest ones,
which are trimmed when there are too many. -/
def Kept (received shown : List (Frame Price)) : Prop :=
  ∃ trimmed, received = trimmed ++ shown ∧ (trimmed = [] ∨ maxFrames < shown.length)

/-- A page whose gateway says that the exchange is connected is live and holds the frames
received since it switched to live. -/
def Browser.Live (browser : Browser Price) : Prop :=
  browser.Connected →
    browser.feed.source = .live ∧ Kept browser.sinceLive browser.feed.frames

/-- The page is so at every moment of a run. -/
def StaysLive (labels : List (BrowserLabel Price)) : Prop :=
  ∀ front back browser, labels = front ++ back → Run (browserSystem Price) front browser →
    browser.Live

/-- A download ends badly: it fails, or a line of the recording is `null`. -/
def Download.EndsBadly (download : Download Price) : Prop :=
  match download with
  | .failed => True
  | .parsed lines => RecordingLine.null ∈ lines

/-- No download ends badly at a moment when the gateway says that the exchange is connected. -/
def NoLateFailure (labels : List (BrowserLabel Price)) : Prop :=
  ∀ front download now back browser, labels = front ++ .downloaded download now :: back →
    Run (browserSystem Price) front browser → download.EndsBadly → ¬ browser.Connected

/-! ### Frames that are kept -/

theorem Kept.nil : Kept ([] : List (Frame Price)) [] := ⟨[], rfl, .inl rfl⟩

/-- `push` keeps the frames received and the new ones. -/
theorem Kept.push {received : List (Frame Price)} {feed : Feed Price}
    (kept : Kept received feed.frames) (frames : List (Frame Price)) :
    Kept (received ++ frames) (feed.push frames).frames := by
  obtain ⟨trimmed, rfl, bound⟩ := kept
  simp only [Feed.push]
  split_ifs with long
  · refine ⟨trimmed ++ (feed.frames ++ frames).take trim, ?_, .inr ?_⟩
    · simp only [List.append_assoc, List.take_append_drop]
    · rw [List.length_drop]
      omega
  · refine ⟨trimmed, List.append_assoc _ _ _, bound.imp_right fun enough => ?_⟩
    rw [List.length_append]
    omega

/-! ### What leaves the frames alone -/

namespace Feed

variable (feed : Feed Price)

theorem rewind_frames (now : ℚ) : (feed.rewind now).frames = feed.frames := by
  unfold rewind
  split <;> rfl

theorem rewind_source (now : ℚ) : (feed.rewind now).source = feed.source := by
  unfold rewind
  split <;> rfl

theorem stepOver_keeps (rest : List (Frame Price)) :
    (stepOver rest feed).1.frames = feed.frames ∧ (stepOver rest feed).1.source = feed.source := by
  induction rest generalizing feed with
  | nil => exact ⟨rfl, rfl⟩
  | cons frame rest inductionHypothesis =>
    cases frame with
    | batch wire => exact ⟨rfl, rfl⟩
    | book atTime shown => exact inductionHypothesis _

theorem push_source (frames : List (Frame Price)) : (feed.push frames).source = feed.source := by
  simp only [push]
  split_ifs <;> rfl

/-- A feed whose socket closes is not live. -/
theorem onClose_source : feed.onClose.1.source ≠ .live := by
  simp only [onClose]
  split_ifs with live
  · exact fun same => nomatch same
  · exact fun same => nomatch same
  · exact fun same => nomatch same
  · exact live

/-- No message starts a download: the only one that calls `useReplay` does so on a live feed. -/
theorem onMessage_downloads (message : Message Price) : (feed.onMessage message).2 = false := by
  cases message with
  | status connected recording =>
    simp only [onMessage]
    split_ifs with switches empty
    · rfl
    · simp [useReplay, empty.2.1]
    · rfl
  | history batches =>
    simp only [onMessage]
    split_ifs <;> rfl
  | _ => rfl

end Feed

/-- A control changes neither the frames nor where they come from. -/
theorem Browser.perform_keeps (browser : Browser Price) (control : Control) :
    (browser.perform control).frames = browser.feed.frames ∧
      (browser.perform control).source = browser.feed.source := by
  cases control with
  | tick now =>
    simp only [perform, Feed.tick]
    split
    · exact ⟨rfl, rfl⟩
    · split_ifs <;> exact ⟨rfl, rfl⟩
    · exact ⟨rfl, rfl⟩
  | takeNew => exact ⟨rfl, rfl⟩
  | seek vt now => exact ⟨Feed.rewind_frames _ _, Feed.rewind_source _ _⟩
  | goLive now =>
    simp only [perform, Feed.goLive]
    split_ifs
    · exact ⟨rfl, rfl⟩
    · exact ⟨Feed.rewind_frames _ _, Feed.rewind_source _ _⟩
  | togglePlay now =>
    simp only [perform, Feed.togglePlay]
    split_ifs
    · exact ⟨rfl, rfl⟩
    · exact ⟨Feed.rewind_frames _ _, Feed.rewind_source _ _⟩
    · exact ⟨rfl, rfl⟩
  | setSpeed speed now =>
    simp only [perform, Feed.setSpeed]
    split_ifs
    · exact ⟨rfl, rfl⟩
    · exact ⟨Feed.rewind_frames _ _, Feed.rewind_source _ _⟩
    · exact ⟨Feed.rewind_frames _ _, Feed.rewind_source _ _⟩
  | step => exact Feed.stepOver_keeps _ _
  | request =>
    simp only [perform, Feed.request]
    split_ifs <;> exact ⟨rfl, rfl⟩
  | requestTimeout reqId => exact ⟨rfl, rfl⟩

/-! ### Downloads -/

theorem readRecording_eq_none_iff (lines : List (RecordingLine Price)) (roster : List RosterEntry)
    (frames : List (Frame Price)) :
    (Feed.readRecording lines roster frames).2 = none ↔ RecordingLine.null ∈ lines := by
  induction lines generalizing roster frames with
  | nil => simp [Feed.readRecording]
  | cons line rest inductionHypothesis =>
    cases line with
    | hello other => simpa [Feed.readRecording] using inductionHypothesis other frames
    | frame frame => simpa [Feed.readRecording] using inductionHypothesis roster (frames ++ [frame])
    | other => simpa [Feed.readRecording] using inductionHypothesis roster frames
    | null => simp [Feed.readRecording]

/-- A download that ends badly makes any feed show the recording. -/
theorem afterDownload_bad (feed : Feed Price) {download : Download Price} (now : ℚ)
    (bad : download.EndsBadly) : (feed.afterDownload download now).source = .replay := by
  cases download with
  | failed => rfl
  | parsed lines =>
    have unreadable := (readRecording_eq_none_iff lines feed.roster []).mpr bad
    simp only [Feed.afterDownload, unreadable]

/-- A download that ends well leaves a live feed alone. -/
theorem afterDownload_good {feed : Feed Price} {download : Download Price} (now : ℚ)
    (good : ¬ download.EndsBadly) (live : feed.source = .live) :
    (feed.afterDownload download now).source = .live ∧
      (feed.afterDownload download now).frames = feed.frames := by
  cases download with
  | failed => exact absurd trivial good
  | parsed lines =>
    obtain ⟨frames, readable⟩ := Option.ne_none_iff_exists'.mp
      (mt (readRecording_eq_none_iff lines feed.roster []).mp good)
    simp only [Feed.afterDownload, readable, if_pos live, and_true]
    exact live

/-- After a download, a feed is live only if it was. -/
theorem afterDownload_live {feed : Feed Price} {download : Download Price} {now : ℚ}
    (live : (feed.afterDownload download now).source = .live) :
    feed.source = .live ∧ ¬ download.EndsBadly := by
  by_cases bad : download.EndsBadly
  · rw [afterDownload_bad feed now bad] at live
    cases live
  · refine ⟨?_, bad⟩
    cases download with
    | failed => exact absurd trivial bad
    | parsed lines =>
      obtain ⟨frames, readable⟩ := Option.ne_none_iff_exists'.mp
        (mt (readRecording_eq_none_iff lines feed.roster []).mp bad)
      by_contra other
      simp only [Feed.afterDownload, readable, if_neg other, Feed.push_source] at live
      cases live

/-! ### The invariant -/

/-- What holds at every moment of a page's life. -/
structure Session (browser : Browser Price) : Prop where
  isOpen : browser.feed.source = .live → ∃ received, browser.socket = .isOpen received
  fresh : browser.started = false → browser.retryTimer = false
  idle : browser.started = false ∨ browser.retryTimer = true → browser.socket = .closed
  greeting : ∀ received, browser.socket = .isOpen received → received.length ≤ 2 →
    browser.feed.source = .live → browser.sinceLive = []
  kept : browser.feed.source = .live → Kept browser.sinceLive browser.feed.frames

theorem lastStatus_concat (received : List (Message Price)) (message : Message Price) :
    lastStatus (received ++ [message]) =
      match message with
      | .status connected _ => some connected
      | _ => lastStatus received := by
  induction received with
  | nil => cases message <;> rfl
  | cons first rest inductionHypothesis =>
    cases message <;> cases first <;>
      simp only [List.cons_append, lastStatus, inductionHypothesis, Option.some_or]

namespace Session

variable {browser : Browser Price}

/-- A page whose socket is not open is not live. -/
theorem notLive (session : Session browser)
    (notOpen : ∀ received, browser.socket ≠ .isOpen received) : browser.feed.source ≠ .live := by
  intro live
  obtain ⟨received, isOpen⟩ := session.isOpen live
  exact notOpen received isOpen

/-- A page that is not live is in order when its timers are. -/
theorem of_notLive {other : Browser Price} (notLive : other.feed.source ≠ .live)
    (fresh : other.started = false → other.retryTimer = false)
    (idle : other.started = false ∨ other.retryTimer = true → other.socket = .closed) :
    Session other where
  isOpen live := absurd live notLive
  fresh := fresh
  idle := idle
  greeting _ _ _ live := absurd live notLive
  kept live := absurd live notLive

/-- A started page without a socket may connect. -/
theorem connect {other : Browser Price} (constructed : Bool) (started : other.started = true)
    (timer : other.retryTimer = false) (closed : other.socket = .closed)
    (notLive : other.feed.source ≠ .live) : Session (other.connect constructed) := by
  unfold Browser.connect
  split_ifs
  · refine of_notLive notLive (fun _ => timer) fun idle => ?_
    simp [started, timer] at idle
  · refine of_notLive notLive (fun fresh => ?_) fun _ => closed
    exact absurd (started.symm.trans fresh) (by decide)

/-- A message that leaves the feed live appends its frames. -/
theorem receive_live (session : Session browser) {received : List (Message Price)}
    {message : Message Price} (isOpen : browser.socket = .isOpen received)
    (inProtocol : InProtocol received message) (live : browser.feed.source = .live) :
    (browser.feed.onMessage message).1.source = .live ∧
      Kept (browser.sinceLive ++ message.frames) (browser.feed.onMessage message).1.frames := by
  have kept := session.kept live
  have unchanged : Kept (browser.sinceLive ++ []) browser.feed.frames := by
    rwa [List.append_nil]
  cases message with
  | hello roster => exact ⟨live, unchanged⟩
  | status connected recording =>
    have same : (browser.feed.onMessage (.status connected recording)).1 =
        { browser.feed with recording := recording, exchangeUp := connected } := by
      simp only [Feed.onMessage]
      rw [if_neg fun switches => switches.2 live]
      split_ifs <;> rfl
    rw [same]
    exact ⟨live, unchanged⟩
  | history batches =>
    have second : received.length = 2 := inProtocol
    have nothing := session.greeting received isOpen second.le live
    rw [nothing] at kept ⊢
    have empty : browser.feed.frames = [] := by
      obtain ⟨trimmed, whole, _⟩ := kept
      exact (List.append_eq_nil_iff.mp whole.symm).2
    simp only [Feed.onMessage, if_pos (And.intro live empty)]
    exact ⟨(Feed.push_source _ _).trans live, kept.push _⟩
  | batch wire =>
    simp only [Feed.onMessage, if_pos live]
    exact ⟨(Feed.push_source _ _).trans live, kept.push _⟩
  | book atTime shown =>
    simp only [Feed.onMessage, if_pos live]
    exact ⟨(Feed.push_source _ _).trans live, kept.push _⟩
  | result reqId => exact ⟨live, unchanged⟩

/-- A message makes the feed live only as a connected status does, and then it is empty. -/
theorem receive_notLive {feed : Feed Price} (message : Message Price)
    (notLive : feed.source ≠ .live) :
    ((feed.onMessage message).1.source = .live ↔ ∃ recording, message = .status true recording) ∧
      ((feed.onMessage message).1.source = .live → (feed.onMessage message).1.frames = []) := by
  cases message with
  | status connected recording =>
    cases connected with
    | true => simp [Feed.onMessage, notLive, Feed.switchToLive, Feed.reset]
    | false => simp [Feed.onMessage, notLive]
  | _ => simp [Feed.onMessage, notLive]

theorem receive (session : Session browser) {received : List (Message Price)}
    {message : Message Price} (isOpen : browser.socket = .isOpen received)
    (inProtocol : InProtocol received message) :
    Session (browser.receive received message) := by
  have live : browser.feed.source = .live →
      (browser.feed.onMessage message).1.source = .live ∧
        Kept (browser.sinceLive ++ message.frames) (browser.feed.onMessage message).1.frames :=
    session.receive_live isOpen inProtocol
  have notLive := @receive_notLive _ browser.feed message
  constructor
  · exact fun _ => ⟨_, rfl⟩
  · exact session.fresh
  · intro idle
    have closed := session.idle idle
    rw [isOpen] at closed
    cases closed
  · intro other isOther short after
    obtain rfl : received ++ [message] = other := Socket.isOpen.inj isOther
    change (browser.feed.onMessage message).1.source = .live at after
    by_cases before : browser.feed.source = .live
    · have earlier : received.length ≤ 1 := by simpa using short
      have nothing := session.greeting received isOpen (by omega) before
      have empty : message.frames = [] := by
        cases message with
        | history batches =>
          have second : received.length = 2 := inProtocol
          omega
        | batch wire =>
          have greeted : 2 < received.length := inProtocol
          omega
        | book atTime shown =>
          have greeted : 2 < received.length := inProtocol
          omega
        | _ => rfl
      change (if _ then [] else browser.sinceLive ++ message.frames) = []
      rw [nothing, empty, List.append_nil, ite_self]
    · change (if _ then [] else browser.sinceLive ++ message.frames) = []
      rw [if_pos ⟨after, before⟩]
  · intro after
    change (browser.feed.onMessage message).1.source = .live at after
    change Kept (if _ then [] else browser.sinceLive ++ message.frames)
      (browser.feed.onMessage message).1.frames
    by_cases before : browser.feed.source = .live
    · rw [if_neg fun switches => switches.2 before]
      exact (live before).2
    · rw [if_pos ⟨after, before⟩, (notLive before).2 after]
      exact .nil

theorem downloaded (session : Session browser) (download : Download Price) (now : ℚ) :
    Session
      { browser with
        feed := browser.feed.afterDownload download now
        downloads := browser.downloads - 1 } := by
  constructor
  · exact fun live => session.isOpen (afterDownload_live live).1
  · exact session.fresh
  · exact session.idle
  · exact fun received isOpen short live =>
      session.greeting received isOpen short (afterDownload_live live).1
  · intro live
    obtain ⟨before, good⟩ := afterDownload_live live
    change Kept browser.sinceLive (browser.feed.afterDownload download now).frames
    rw [(afterDownload_good now good before).2]
    exact session.kept before

theorem step (session : Session browser) {label : BrowserLabel Price} {target : Browser Price}
    (step : (browserSystem Price).step browser label target) : Session target := by
  obtain ⟨isOpen, fresh, idle, greeting, kept⟩ := id session
  cases label with
  | start reachable constructed =>
    obtain ⟨notStarted, rfl⟩ := step
    have closed := idle (.inl notStarted)
    have notLive := session.notLive fun received => by
      rw [closed]
      exact fun same => nomatch same
    unfold Browser.start
    split_ifs
    · have connecting : Session
          ({ browser with started := true, startTimer := true }.connect constructed) :=
        .connect constructed rfl (fresh notStarted) closed notLive
      unfold Browser.connect at connecting ⊢
      split_ifs at connecting ⊢ <;> exact connecting
    · exact of_notLive notLive (fun _ => fresh notStarted) fun _ => closed
  | startTimer =>
    obtain ⟨_, rfl⟩ := step
    exact ⟨isOpen, fresh, idle, greeting, kept⟩
  | retry constructed =>
    obtain ⟨timer, rfl⟩ := step
    have closed := idle (.inr timer)
    have started : browser.started = true := by
      by_contra notStarted
      exact absurd (timer.symm.trans (fresh (by simpa using notStarted))) (by decide)
    refine .connect constructed started rfl closed (session.notLive fun received => ?_)
    rw [closed]
    exact fun same => nomatch same
  | opened =>
    obtain ⟨connecting, rfl⟩ := step
    have notLive := session.notLive fun received => by
      rw [connecting]
      exact fun same => nomatch same
    refine of_notLive notLive fresh fun waiting => ?_
    have closed := idle waiting
    rw [connecting] at closed
    cases closed
  | closed =>
    obtain ⟨isSocket, rfl⟩ := step
    have started : browser.started = true := by
      by_contra notStarted
      exact isSocket (idle (.inl (by simpa using notStarted)))
    refine of_notLive ?_ (fun notStarted => ?_) fun _ => rfl
    · exact Feed.onClose_source _
    · exact absurd (started.symm.trans notStarted) (by decide)
  | message message =>
    obtain ⟨received, isOpen, inProtocol, rfl⟩ := step
    exact session.receive isOpen inProtocol
  | downloaded download now =>
    obtain ⟨_, rfl⟩ := step
    exact session.downloaded download now
  | control control =>
    obtain rfl := step
    obtain ⟨frames, source⟩ := browser.perform_keeps control
    constructor
    · exact fun live => isOpen (source.symm.trans live)
    · exact fresh
    · exact idle
    · exact fun received isOpen short live =>
        greeting received isOpen short (source.symm.trans live)
    · intro live
      change Kept browser.sinceLive (browser.perform control).frames
      rw [frames]
      exact kept (source.symm.trans live)

end Session

/-! ### Runs -/

theorem NoLateFailure.earlier {labels : List (BrowserLabel Price)} {label : BrowserLabel Price}
    (inTime : NoLateFailure (labels ++ [label])) : NoLateFailure labels := by
  rintro front download now back browser rfl
  exact inTime front download now (back ++ [label]) browser (by simp)

theorem browserRun_session {labels : List (BrowserLabel Price)} {browser : Browser Price}
    (run : Run (browserSystem Price) labels browser) : Session browser := by
  refine run.invariant (fun _ browser => Session browser) ?_ ?_
  · rintro browser rfl
    exact .of_notLive (fun same => nomatch same) (fun _ => rfl) fun _ => rfl
  · exact fun _ _ _ _ _ session step => session.step step

/-- A page goes live with a connected status, and stays live unless a download ends badly or its
socket closes. -/
theorem Session.connected {browser target : Browser Price} {label : BrowserLabel Price}
    (session : Session browser) (before : browser.Connected → browser.feed.source = .live)
    (inTime : ∀ download now, label = .downloaded download now → download.EndsBadly →
      ¬ browser.Connected)
    (step : (browserSystem Price).step browser label target) (connected : target.Connected) :
    target.feed.source = .live := by
  obtain ⟨received, isOpen, last⟩ := connected
  cases label with
  | start reachable constructed =>
    obtain ⟨notStarted, rfl⟩ := step
    have closed := session.idle (.inl notStarted)
    simp only [Browser.start, Browser.connect, Browser.download] at isOpen
    split_ifs at isOpen <;> simp [closed] at isOpen
  | startTimer =>
    obtain ⟨_, rfl⟩ := step
    exact before ⟨received, isOpen, last⟩
  | retry constructed =>
    obtain ⟨timer, rfl⟩ := step
    have closed := session.idle (.inr timer)
    simp only [Browser.connect] at isOpen
    split_ifs at isOpen
    simp [closed] at isOpen
  | opened =>
    obtain ⟨_, rfl⟩ := step
    obtain rfl := Socket.isOpen.inj isOpen
    cases last
  | closed =>
    obtain ⟨_, rfl⟩ := step
    cases isOpen
  | message message =>
    obtain ⟨earlier, wasOpen, inProtocol, rfl⟩ := step
    obtain rfl : earlier ++ [message] = received := Socket.isOpen.inj isOpen
    change (browser.feed.onMessage message).1.source = .live
    by_cases live : browser.feed.source = .live
    · exact (session.receive_live wasOpen inProtocol live).1
    · refine ((receive_notLive message live).1).mpr ?_
      rw [lastStatus_concat] at last
      cases message with
      | status connected recording =>
        obtain rfl : connected = true := Option.some.inj last
        exact ⟨recording, rfl⟩
      | _ => exact absurd (before ⟨earlier, wasOpen, last⟩) live
  | downloaded download now =>
    obtain ⟨_, rfl⟩ := step
    have connected : browser.Connected := ⟨received, isOpen, last⟩
    exact (afterDownload_good now (fun bad => inTime download now rfl bad connected)
      (before connected)).1
  | control control =>
    obtain rfl := step
    exact (browser.perform_keeps control).2.trans (before ⟨received, isOpen, last⟩)

theorem browserRun_connected {labels : List (BrowserLabel Price)} {browser : Browser Price}
    (run : Run (browserSystem Price) labels browser) (inTime : NoLateFailure labels) :
    browser.Connected → browser.feed.source = .live := by
  refine @Run.invariant_of_admissible _ _ (browserSystem Price) NoLateFailure
    (fun _ browser => browser.Connected → browser.feed.source = .live) labels browser
    (fun _ _ => NoLateFailure.earlier) ?_ ?_ run inTime
  · rintro browser rfl ⟨received, isOpen, _⟩
    cases isOpen
  · intro labels source label target run admitted before step
    refine (browserRun_session run).connected before (fun download now isDownload bad => ?_) step
    subst isDownload
    exact admitted labels download now [] source rfl run bad

/-- A label says which state a step leads to. -/
theorem browserStep_unique {source one other : Browser Price} {label : BrowserLabel Price}
    (left : (browserSystem Price).step source label one)
    (right : (browserSystem Price).step source label other) : one = other := by
  cases label with
  | message message =>
    obtain ⟨received, isOpen, _, rfl⟩ := left
    obtain ⟨also, isAlso, _, rfl⟩ := right
    rw [Socket.isOpen.inj (isOpen.symm.trans isAlso)]
  | control control => exact left.trans right.symm
  | _ => exact left.2.trans right.2.symm

/-- The labels of a run say which state it reaches. -/
theorem browserRun_unique {labels : List (BrowserLabel Price)} {first second : Browser Price}
    (left : Run (browserSystem Price) labels first)
    (right : Run (browserSystem Price) labels second) : first = second :=
  left.unique right (fun _ _ one other => one.trans other.symm)
    fun _ _ _ _ => browserStep_unique

/-- A page stays live in exactly the runs in which no download ends badly at a moment when the
gateway says that the exchange is connected. -/
theorem stays_live_iff {labels : List (BrowserLabel Price)} {browser : Browser Price}
    (run : Run (browserSystem Price) labels browser) :
    StaysLive labels ↔ NoLateFailure labels := by
  constructor
  · rintro staysLive front download now back source rfl before bad ⟨received, isOpen, last⟩
    obtain ⟨reached, prior, steps⟩ := run.split
    obtain rfl := browserRun_unique before prior
    cases steps with
    | @cons _ second _ _ _ step _ =>
      have after :=
        staysLive (front ++ [BrowserLabel.downloaded download now]) back second (by simp)
        (before.next step)
      obtain ⟨_, rfl⟩ := step
      have live : (source.feed.afterDownload download now).source = .live :=
        (after ⟨received, isOpen, last⟩).1
      rw [afterDownload_bad source.feed now bad] at live
      cases live
  · rintro inTime front back reached rfl before connected
    have early : NoLateFailure front := fun early download now late source split =>
      inTime early download now (late ++ back) source (by rw [split]; simp)
    have live := browserRun_connected before early connected
    exact ⟨live, (browserRun_session before).kept live⟩

namespace Sample

/-- The start-up timer starts a download, and the gateway answers that the exchange is connected. -/
def goesLive : List (BrowserLabel ℚ) :=
  [.start true true, .startTimer, .opened, .message (.hello []), .message (.status true none)]

/-- The page with a download under way. -/
def waiting : Browser ℚ := (Browser.initial.start true true).startUp

/-- The page that has gone live. -/
def liveBrowser : Browser ℚ :=
  ({ waiting with socket := .isOpen [], sinceLive := [] }.receive [] (.hello [])).receive
    [.hello []] (.status true none)

theorem goesLive_run : Run (browserSystem ℚ) goesLive liveBrowser := by
  have start : Run (browserSystem ℚ) [] .initial := .start rfl
  have started : Run (browserSystem ℚ) [.start true true] (Browser.initial.start true true) :=
    start.next ⟨rfl, rfl⟩
  have timer : Run (browserSystem ℚ) [.start true true, .startTimer] waiting :=
    started.next ⟨rfl, rfl⟩
  have opened : Run (browserSystem ℚ) [.start true true, .startTimer, .opened]
      { waiting with socket := .isOpen [], sinceLive := [] } := timer.next ⟨rfl, rfl⟩
  have hello : Run (browserSystem ℚ)
      [.start true true, .startTimer, .opened, .message (.hello [])]
      ({ waiting with socket := .isOpen [], sinceLive := [] }.receive [] (.hello [])) :=
    opened.next ⟨[], rfl, rfl, rfl⟩
  exact hello.next ⟨[.hello []], rfl, .inl rfl, rfl⟩

/-- Then the gateway sends its history and a book, and the download ends well. -/
def shows : List (BrowserLabel ℚ) :=
  goesLive ++
    [BrowserLabel.message (.history []), .message (.book 5 ⟨[], []⟩), .downloaded (.parsed []) 0]

theorem shows_run : ∃ browser, Run (browserSystem ℚ) shows browser := by
  have history : Run (browserSystem ℚ) (goesLive ++ [BrowserLabel.message (.history [])])
      (liveBrowser.receive [.hello [], .status true none] (.history [])) :=
    goesLive_run.next ⟨[.hello [], .status true none], rfl, rfl, rfl⟩
  have book : Run (browserSystem ℚ)
      (goesLive ++ [BrowserLabel.message (.history [])] ++
        [BrowserLabel.message (.book 5 ⟨[], []⟩)])
      ((liveBrowser.receive [.hello [], .status true none] (.history [])).receive
        [.hello [], .status true none, .history []] (.book 5 ⟨[], []⟩)) :=
    history.next ⟨[.hello [], .status true none, .history []], rfl, Nat.lt_succ_self 2, rfl⟩
  have whole : Run (browserSystem ℚ) shows _ := book.next ⟨by decide, rfl⟩
  exact ⟨_, whole⟩

theorem shows_noLateFailure : NoLateFailure shows := by
  intro front download now back browser split _ bad
  have member : BrowserLabel.downloaded download now ∈ shows := by rw [split]; simp
  simp only [shows, goesLive, List.mem_append, List.mem_cons, List.not_mem_nil] at member
  simp at member
  rw [member.1] at bad
  cases bad

end Sample

theorem stays_live_iff_sample : StaysLive Sample.shows := by
  obtain ⟨browser, run⟩ := Sample.shows_run
  exact (stays_live_iff run).mpr Sample.shows_noLateFailure

/-- A download that fails after the connection came up takes the page away from live, while the
gateway says that the exchange is connected. -/
theorem late_failure_leaves_live :
    ¬ ∀ (labels : List (BrowserLabel ℚ)) (browser : Browser ℚ),
      Run (browserSystem ℚ) labels browser → browser.Live := by
  intro always
  have fails : Run (browserSystem ℚ) (Sample.goesLive ++ [BrowserLabel.downloaded .failed 0])
      { Sample.liveBrowser with
        feed := Sample.liveBrowser.feed.afterDownload .failed 0
        downloads := 0 } := Sample.goesLive_run.next ⟨by decide, rfl⟩
  have live := (always _ _ fails ⟨[.hello [], .status true none], rfl, rfl⟩).1
  cases live

end MarketSandbox
