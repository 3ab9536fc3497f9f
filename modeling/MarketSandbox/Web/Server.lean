/-
This file models the gateway's server: what it does when the telemetry
subscription comes up, delivers a batch or ends, when its flush timer fires,
when a recording starts or stops, and when a browser connects. Each handler
returns the server after it and the messages it broadcasts.
-/

import MarketSandbox.Web.Feed

namespace MarketSandbox

variable {Price : Type}

/-- `ROSTER`, as it is sent to browsers. -/
def roster : List RosterEntry :=
  [⟨"mm-tight", "market-maker"⟩, ⟨"mm-wide", "market-maker"⟩, ⟨"mom-fast", "momentum"⟩,
    ⟨"mom-slow", "momentum"⟩, ⟨"mr-1", "mean-reversion"⟩, ⟨"noise-1", "noise"⟩,
    ⟨"noise-2", "noise"⟩, ⟨"noise-3", "noise"⟩, ⟨"noise-4", "noise"⟩, ⟨"replay-1", "replay"⟩]

/-- `HISTORY_MAX`. -/
def historyMax : Nat := 600

/-- The variables of the gateway; `alive` belongs to the current telemetry subscription, and
`recorder` is the name of the file that is recorded to. -/
structure Server (Price : Type) where
  history : List (WireBatch Price)
  normalizer : Normalizer Price
  alive : Bool
  exchangeUp : Bool
  recorder : Option String

namespace Server

/-- A gateway that has just started. -/
def initial : Server Price := ⟨[], .initial, false, false, none⟩

variable (server : Server Price)

/-- `status`. -/
def status : Message Price := .status server.exchangeUp server.recorder

/-- The handler of `metadata`. -/
def onMetadata : Server Price × List (Message Price) :=
  let up := { server with alive := true, exchangeUp := true }
  (up, [up.status])

/-- `down`. -/
def down : Server Price × List (Message Price) :=
  if server.alive ∨ server.exchangeUp then
    let down := { server with alive := false, exchangeUp := false }
    (down, [down.status])
  else (server, [])

/-- The history with a batch pushed, within `HISTORY_MAX`. -/
def remember (history : List (WireBatch Price)) (batch : WireBatch Price) :
    List (WireBatch Price) :=
  let pushed := history ++ [batch]
  if pushed.length > historyMax then pushed.drop 1 else pushed

/-- The handler of `data`. -/
def onData [Zero Price] (raw : RawBatch Price) (now : Int) : Server Price × List (Message Price) :=
  let normalized := server.normalizer.normalize raw now
  ({ server with
      history := remember server.history normalized.1
      normalizer := normalized.2 },
    [.batch normalized.1])

/-- The flush timer. -/
def flush (now : Int) : Server Price × List (Message Price) :=
  let flushed := server.normalizer.flushBook
  match flushed.1 with
  | some book => ({ server with normalizer := flushed.2 }, [.book now book])
  | none => ({ server with normalizer := flushed.2 }, [])

/-- `startRecording`. -/
def startRecording (file : String) : Server Price × List (Message Price) :=
  if server.recorder.isSome then (server, [])
  else
    let recording := { server with recorder := some file }
    (recording, [recording.status])

/-- `stopRecording`. -/
def stopRecording : Server Price × List (Message Price) :=
  if server.recorder.isSome then
    let stopped := { server with recorder := none }
    (stopped, [stopped.status])
  else (server, [])

/-- The messages that the handler of `connection` sends to the new socket. -/
def onConnection : List (Message Price) :=
  [.hello roster, server.status, .history server.history]

end Server

end MarketSandbox
