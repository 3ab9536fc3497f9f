/-
This file models the browser's `Feed`: the frames it holds, the clock that
moves over them, and what each message of the gateway and each control of the
page does to it. A method that starts the download of the recording says so in
its result. Times are exact rational numbers.
-/

import Mathlib.Algebra.Order.Ring.Rat
import MarketSandbox.Gateway.Normalizer
import MarketSandbox.Library.Bisect

namespace MarketSandbox

variable {Price : Type}

/-! ### Frames and messages -/

/-- `Frame`: a batch, or a `BookFrame`. -/
inductive Frame (Price : Type)
  | batch (batch : WireBatch Price)
  | book (atTime : Int) (book : WireBook Price)

namespace Frame

/-- `at`. -/
def atTime : Frame Price → Int
  | .batch wire => wire.atTime
  | .book atTime _ => atTime

/-- The book that a frame carries. -/
def book? : Frame Price → Option (WireBook Price)
  | .batch wire => wire.book
  | .book _ shown => some shown

/-- The batch that a frame is. -/
def batch? : Frame Price → Option (WireBatch Price)
  | .batch wire => some wire
  | .book _ _ => none

end Frame

/-- `RosterEntry`. -/
structure RosterEntry where
  id : String
  strategy : String

/-- `Source`. -/
inductive Source
  | connecting
  | live
  | replay
  deriving DecidableEq

/-- `ClockMode`. -/
inductive ClockMode
  | follow
  | play
  | pause
  deriving DecidableEq

/-- A message of the gateway. -/
inductive Message (Price : Type)
  | hello (roster : List RosterEntry)
  | status (connected : Bool) (recording : Option String)
  | history (batches : List (WireBatch Price))
  | batch (batch : WireBatch Price)
  | book (atTime : Int) (book : WireBook Price)
  | result (reqId : Nat)

/-- A line of the recording; `other` has another type, and `null` is a line that reads `null`. -/
inductive RecordingLine (Price : Type)
  | hello (roster : List RosterEntry)
  | frame (frame : Frame Price)
  | other
  | null

/-- How the download of the recording ends; it fails when the request, its status or the text of
a line is bad. -/
inductive Download (Price : Type)
  | failed
  | parsed (lines : List (RecordingLine Price))

/-! ### The feed -/

/-- A point of the page's clock and the time shown at it. -/
structure Anchor where
  wall : ℚ
  vt : ℚ

/-- `Feed`. -/
structure Feed (Price : Type) where
  frames : List (Frame Price)
  roster : List RosterEntry
  source : Source
  exchangeUp : Bool
  recording : Option String
  clockMode : ClockMode
  speed : ℚ
  vt : ℚ
  cursor : Nat
  forced : List (Frame Price)
  anchor : Anchor
  reqId : Nat
  pending : List Nat

/-- `MAX_FRAMES`. -/
def maxFrames : Nat := 20000

/-- `TRIM`. -/
def trim : Nat := 2000

namespace Feed

/-- A new feed. -/
def initial : Feed Price where
  frames := []
  roster := []
  source := .connecting
  exchangeUp := false
  recording := none
  clockMode := .follow
  speed := 1
  vt := 0
  cursor := 0
  forced := []
  anchor := ⟨0, 0⟩
  reqId := 0
  pending := []

variable (feed : Feed Price)

/-- `firstAt`. -/
def firstAt : Int := (feed.frames.head?.map Frame.atTime).getD 0

/-- `lastAt`. -/
def lastAt : Int := (feed.frames.getLast?.map Frame.atTime).getD 0

/-- A frame is not after a time. -/
def Reached (vt : ℚ) (frame : Frame Price) : Prop := (frame.atTime : ℚ) ≤ vt

instance (vt : ℚ) (frame : Frame Price) : Decidable (Reached vt frame) :=
  inferInstanceAs (Decidable (_ ≤ _))

/-- `indexAt`. -/
def indexAt (vt : ℚ) : Int :=
  Bisect.last (fun mid => feed.frames[mid.toNat]?.any fun frame => decide (Reached vt frame))
    feed.frames.length

/-- `push`. -/
def push (frames : List (Frame Price)) : Feed Price :=
  let all := feed.frames ++ frames
  if all.length > maxFrames + trim then
    { feed with frames := all.drop trim, cursor := feed.cursor - trim }
  else { feed with frames := all }

/-- `reset`. -/
def reset (source : Source) : Feed Price :=
  { feed with frames := [], cursor := 0, source := source }

/-- `setFollow`. -/
def setFollow : Feed Price :=
  { feed with
    clockMode := .follow
    speed := 1
    vt := feed.lastAt
    cursor := feed.frames.length }

/-! ### The clock and the controls -/

/-- `tick`. -/
def tick (now : ℚ) : Feed Price :=
  match feed.clockMode with
  | .follow => { feed with vt := feed.lastAt }
  | .play =>
    let vt := feed.anchor.vt + (now - feed.anchor.wall) * feed.speed
    if feed.source = .replay ∧ feed.frames ≠ [] ∧ vt > feed.lastAt + 1500 then
      { feed with vt := feed.firstAt, cursor := 0, anchor := ⟨now, feed.firstAt⟩ }
    else if feed.source = .live ∧ vt ≥ feed.lastAt then { feed with vt := vt }.setFollow
    else { feed with vt := vt }
  | .pause => feed

/-- The frames that `takeNew` finds from the cursor on. -/
def unread : List (Frame Price) :=
  match feed.clockMode with
  | .pause => []
  | .follow => feed.frames.drop feed.cursor
  | .play => (feed.frames.drop feed.cursor).takeWhile fun frame => decide (Reached feed.vt frame)

/-- `takeNew`. -/
def takeNew : Feed Price × List (Frame Price) :=
  ({ feed with forced := [], cursor := feed.cursor + feed.unread.length },
    feed.forced ++ feed.unread)

/-- The page's clock starts again from the time shown. -/
def rewind (now : ℚ) : Feed Price :=
  match feed.clockMode with
  | .play => { feed with anchor := ⟨now, feed.vt⟩ }
  | _ => feed

/-- `seek`. -/
def seek (vt now : ℚ) : Feed Price :=
  let vt := min (max vt feed.firstAt) feed.lastAt
  { feed with
    vt := vt
    cursor := (feed.indexAt vt + 1).toNat
    clockMode := if feed.clockMode = ClockMode.follow then .pause else feed.clockMode }.rewind now

/-- `goLive`. -/
def goLive (now : ℚ) : Feed Price :=
  if feed.source = .live then feed.setFollow
  else { feed with clockMode := .play, speed := 1 }.seek feed.firstAt now

/-- `togglePlay`. -/
def togglePlay (now : ℚ) : Feed Price :=
  if feed.clockMode = .pause then
    if feed.source = .live ∧ feed.vt ≥ feed.lastAt then feed.setFollow
    else { feed with clockMode := .play }.rewind now
  else { feed with clockMode := .pause }

/-- `setSpeed`. -/
def setSpeed (speed now : ℚ) : Feed Price :=
  if feed.clockMode = .follow then
    if speed = 1 then { feed with speed := speed }
    else { feed with speed := speed, clockMode := .play }.rewind now
  else { feed with speed := speed }.rewind now

/-- The loop of `step` over the frames from the cursor on. -/
def stepOver : List (Frame Price) → Feed Price → Feed Price × List (Frame Price)
  | [], feed => (feed, [])
  | frame :: rest, feed =>
    let moved := { feed with cursor := feed.cursor + 1, vt := frame.atTime }
    match frame with
    | .batch _ => ({ moved with forced := moved.forced ++ [frame] }, [frame])
    | .book _ _ => stepOver rest moved

/-- `step`. -/
def step : Feed Price × List (Frame Price) :=
  stepOver (feed.frames.drop feed.cursor) { feed with clockMode := .pause }

/-! ### Messages and the recording -/

/-- `useReplay` up to the download; whether one starts. -/
def useReplay : Bool := feed.source ≠ .live

/-- `switchToLive`. -/
def switchToLive : Feed Price :=
  { feed.reset .live with clockMode := .follow, speed := 1, vt := 0 }

/-- `onMessage`, and whether it starts a download. -/
def onMessage : Message Price → Feed Price × Bool
  | .hello roster => ({ feed with roster := roster }, false)
  | .status connected recording =>
    let seen := { feed with recording := recording, exchangeUp := connected }
    if connected ∧ feed.source ≠ .live then (seen.switchToLive, false)
    else if ¬ connected ∧ feed.source = .live ∧ feed.frames = [] then (seen, seen.useReplay)
    else (seen, false)
  | .history batches =>
    if feed.source = .live ∧ feed.frames = [] then
      ((feed.push (batches.map .batch)).setFollow, false)
    else (feed, false)
  | .batch batch => (if feed.source = .live then feed.push [.batch batch] else feed, false)
  | .book atTime book =>
    (if feed.source = .live then feed.push [.book atTime book] else feed, false)
  | .result reqId => ({ feed with pending := feed.pending.erase reqId }, false)

/-- `onclose`, and whether it starts a download. -/
def onClose : Feed Price × Bool :=
  let closed := { feed with exchangeUp := false }
  if feed.source = .live then
    let replaying := { closed with source := .replay }
    if feed.frames = [] then (replaying, replaying.useReplay)
    else if feed.clockMode = .follow then ({ replaying with clockMode := .pause }, false)
    else (replaying, false)
  else (closed, false)

/-- The lines of the recording: the roster they set, and the frames, unless a line is `null`. -/
def readRecording : List (RecordingLine Price) → List RosterEntry → List (Frame Price) →
    List RosterEntry × Option (List (Frame Price))
  | [], roster, frames => (roster, some frames)
  | .hello roster :: rest, _, frames => readRecording rest roster frames
  | .frame frame :: rest, roster, frames => readRecording rest roster (frames ++ [frame])
  | .other :: rest, roster, frames => readRecording rest roster frames
  | .null :: _, roster, _ => (roster, none)

/-- `useReplay` from the end of the download on. -/
def afterDownload (download : Download Price) (now : ℚ) : Feed Price :=
  match download with
  | .failed => { feed with source := .replay }
  | .parsed lines =>
    let read := readRecording lines feed.roster []
    let greeted := { feed with roster := read.1 }
    match read.2 with
    | none => { greeted with source := .replay }
    | some frames =>
      if greeted.source = .live then greeted
      else
        let pushed := (greeted.reset .replay).push frames
        { pushed with
          clockMode := .play
          speed := 1
          vt := pushed.firstAt
          anchor := ⟨now, pushed.firstAt⟩ }

/-- A request on the socket: it takes the next `reqId` when the feed can trade. -/
def request (isOpen : Bool) : Feed Price :=
  if feed.source = .live ∧ feed.exchangeUp ∧ isOpen then
    { feed with reqId := feed.reqId + 1, pending := feed.pending ++ [feed.reqId + 1] }
  else feed

/-- A request's timer runs out. -/
def requestTimeout (reqId : Nat) : Feed Price :=
  { feed with pending := feed.pending.erase reqId }

end Feed

end MarketSandbox
