/-
This file models the threads of the Cap'n Proto feed server: the one that accepts
connections, the one it starts for every client, and the caller of `start` and
`stop`. A client's thread subscribes to the publisher, takes events and sends
them until a send fails or the server stops, and then unsubscribes and closes its
socket. `stop` clears the flag, closes the listening socket, joins the accepting
thread and then the clients' threads. When it has returned, nothing of the server
is left running or subscribed.
-/

import MarketSandbox.Library.Broadcast

namespace MarketSandbox

open Transition

variable {Event : Type}

/-! ### The threads -/

/-- Where `acceptLoop` stands: before its thread is started, before the load of `_running`, in
`accept`, before a client's thread is started, or after the loop. -/
inductive AcceptPc
  | notStarted
  | check
  | accept
  | spawn
  | ended
  deriving DecidableEq

/-- Where `serveClient` stands, with its `subId`: before its thread is started, before the
subscription, before the loop's condition, before a dequeue, before an event is sent, before the
subscription is given up, before the socket is closed, or after that. -/
inductive ClientPc (Event : Type)
  | notStarted
  | subscribe
  | check (subId : Nat) (alive : Bool)
  | dequeue (subId : Nat)
  | send (subId : Nat) (event : Event)
  | unsubscribe (subId : Nat)
  | close
  | ended

/-- How the sending of an event ends: it is sent, the socket fails, or the event does not fit one
segment. -/
inductive SendOutcome
  | sent
  | failed
  | oversized

/-- Where `stop` stands: not called, before the listening socket is closed, before the join of the
accepting thread, before the clients' threads are taken, or before the joins that are left. -/
inductive FeedStopPc
  | idle
  | close
  | joinAcceptor
  | swap
  | join (clients : List Nat)

/-- `CapnpFeedServer`, with its threads by their names, and the publisher. -/
structure FeedServer (Event : Type) where
  running : Bool
  listening : Bool
  acceptor : AcceptPc
  spawned : Nat
  clients : Nat → ClientPc Event
  clientThreads : List Nat
  stopper : FeedStopPc
  publisher : Broadcast.State Event

/-- What a client's thread does. -/
inductive ClientStep (Event : Type)
  | subscribe (subId : Nat)
  | check
  | dequeue (subId : Nat) (answer : Option Event)
  | send (outcome : SendOutcome)
  | unsubscribe (subId : Nat)
  | close

/-- The steps; those of everybody else on the publisher are `others`. -/
inductive FeedLabel (Event : Type)
  | start (bound : Bool)
  | callStop
  | closeListener
  | joinAcceptor
  | swap
  | joinClient
  | returned
  | check
  | accepted
  | acceptFails
  | spawn
  | client (name : Nat) (step : ClientStep Event)
  | others (label : Broadcast.Label Event)

/-- The `subId` that a client's thread holds. -/
def ClientPc.subId? : ClientPc Event → Option Nat
  | .check subId _ | .dequeue subId | .send subId _ | .unsubscribe subId => some subId
  | .notStarted | .subscribe | .close | .ended => none

/-- The subscription that a step on the publisher uses. -/
def usedId? : Broadcast.Label Event → Option Nat
  | .unsubscribe id | .dequeue id _ => some id
  | _ => none

/-- A server that has not started. -/
def FeedServer.initial : FeedServer Event where
  running := false
  listening := false
  acceptor := .notStarted
  spawned := 0
  clients _ := .notStarted
  clientThreads := []
  stopper := .idle
  publisher := Broadcast.initial

/-- A client's thread goes on. -/
def FeedServer.move (server : FeedServer Event) (name : Nat) (pc : ClientPc Event) :
    FeedServer Event :=
  { server with clients := Function.update server.clients name pc }

/-- A step of a client's thread. -/
def FeedServer.clientStep (source : FeedServer Event) (target : FeedServer Event) (name : Nat) :
    ClientStep Event → Prop
  | .subscribe subId => ∃ publisher, source.clients name = .subscribe ∧
      (Broadcast.system Event).step source.publisher (.subscribe subId) publisher ∧
      target = { source.move name (.check subId true) with publisher := publisher }
  | .check => ∃ subId alive, source.clients name = .check subId alive ∧
      target =
        source.move name (if source.running && alive then .dequeue subId else .unsubscribe subId)
  | .dequeue subId answer => ∃ publisher, source.clients name = .dequeue subId ∧
      (Broadcast.system Event).step source.publisher (.dequeue subId answer) publisher ∧
      target = { source.move name (match answer with
        | none => .check subId true
        | some event => .send subId event) with publisher := publisher }
  | .send outcome => ∃ subId event, source.clients name = .send subId event ∧
      target = source.move name (match outcome with
        | .sent => .check subId true
        | .failed => .check subId false
        | .oversized => .unsubscribe subId)
  | .unsubscribe subId => ∃ publisher, source.clients name = .unsubscribe subId ∧
      (Broadcast.system Event).step source.publisher (.unsubscribe subId) publisher ∧
      target = { source.move name .close with publisher := publisher }
  | .close => source.clients name = .close ∧ target = source.move name .ended

/-- The server as a transition system. `start` and `stop` are called from one thread; `start` gives
up when the socket cannot be bound, and `accept` fails at any time, as it does on a socket that is
closed. -/
def feedSystem (Event : Type) : System (FeedServer Event) (FeedLabel Event) where
  initial server := server = .initial
  step source label target :=
    match label with
    | .start bound => source.stopper = .idle ∧
        target =
          if source.running = false ∧ bound = true then
            { source with running := true, listening := true, acceptor := .check }
          else source
    | .callStop => source.stopper = .idle ∧
        target =
          if source.running = true then { source with running := false, stopper := .close }
          else source
    | .closeListener => source.stopper = .close ∧
        target = { source with listening := false, stopper := .joinAcceptor }
    | .joinAcceptor => source.stopper = .joinAcceptor ∧ source.acceptor = .ended ∧
        target = { source with stopper := .swap }
    | .swap => source.stopper = .swap ∧
        target = { source with clientThreads := [], stopper := .join source.clientThreads }
    | .joinClient => ∃ name rest, source.stopper = .join (name :: rest) ∧
        source.clients name = .ended ∧ target = { source with stopper := .join rest }
    | .returned => source.stopper = .join [] ∧ target = { source with stopper := .idle }
    | .check => source.acceptor = .check ∧
        target = { source with acceptor := if source.running then .accept else .ended }
    | .accepted => source.acceptor = .accept ∧ source.listening = true ∧
        target = { source with acceptor := .spawn }
    | .acceptFails => source.acceptor = .accept ∧ target = { source with acceptor := .ended }
    | .spawn => source.acceptor = .spawn ∧
        target = { source.move source.spawned .subscribe with
          acceptor := .check
          spawned := source.spawned + 1
          clientThreads := source.clientThreads ++ [source.spawned] }
    | .client name step => source.clientStep target name step
    | .others label => (∀ name subId, (source.clients name).subId? = some subId →
          usedId? label ≠ some subId) ∧
        ∃ publisher, (Broadcast.system Event).step source.publisher label publisher ∧
          target = { source with publisher := publisher }

/-- A run of the server. -/
abbrev FeedRun (labels : List (FeedLabel Event)) (server : FeedServer Event) : Prop :=
  Run (feedSystem Event) labels server

/-! ### Every thread has an owner -/

/-- The clients' threads that `stop` has taken and not yet joined. -/
def FeedStopPc.taken : FeedStopPc → List Nat
  | .join clients => clients
  | .idle | .close | .joinAcceptor | .swap => []

/-- `stop` has not yet joined the accepting thread of a server that runs or ran. -/
def FeedServer.Accepting (server : FeedServer Event) : Prop :=
  server.running = true ∨ server.stopper = .close ∨ server.stopper = .joinAcceptor

/-- A thread that runs is one that `stop` will join: the accepting thread unless it has been
joined, and a client's thread through the vector it is in. -/
structure FeedServer.Owned (server : FeedServer Event) : Prop where
  stopping : server.stopper ≠ .idle → server.running = false
  unstarted : ∀ name, server.clients name = .notStarted ↔ server.spawned ≤ name
  client : ∀ name, server.clients name ≠ .notStarted → server.clients name ≠ .ended →
    name ∈ server.clientThreads ++ server.stopper.taken
  known : ∀ name ∈ server.clientThreads ++ server.stopper.taken, name < server.spawned
  started : server.Accepting → server.acceptor ≠ .notStarted
  acceptor : ¬ server.Accepting → server.acceptor = .notStarted ∨ server.acceptor = .ended
  emptied : ¬ server.Accepting → server.stopper ≠ .swap → server.clientThreads = []
  listening : server.listening = true → server.running = true ∨ server.stopper = .close

namespace FeedServer.Owned

variable {server : FeedServer Event}

theorem start : (FeedServer.initial : FeedServer Event).Owned where
  stopping away := absurd rfl away
  unstarted name := iff_of_true rfl (Nat.zero_le name)
  client _ started := absurd rfl started
  known _ member := absurd member List.not_mem_nil
  started accepting := by
    rcases accepting with running | closing | joining
    · cases running
    · cases closing
    · cases joining
  acceptor _ := .inl rfl
  emptied _ _ := rfl
  listening heard := by cases heard

/-- What the publisher does changes no thread. -/
theorem of_publisher (owned : server.Owned) (publisher : Broadcast.State Event) :
    ({ server with publisher := publisher } : FeedServer Event).Owned :=
  { owned with }

/-- A client's thread that goes on stays where it is owned. -/
theorem move (owned : server.Owned) {name : Nat} {pc : ClientPc Event}
    (begun : server.clients name ≠ .notStarted) (live : server.clients name ≠ .ended)
    (on : pc ≠ .notStarted) : (server.move name pc).Owned :=
  { owned with
    unstarted := fun other => by
      refine Iff.trans ?_ (owned.unstarted other)
      by_cases same : other = name
      · subst same
        simp [FeedServer.move, on, begun]
      · simp [FeedServer.move, same]
    client := fun other otherBegun otherLive => by
      by_cases same : other = name
      · exact same ▸ owned.client name begun live
      · simp only [FeedServer.move, Function.update_of_ne same] at otherBegun otherLive
        exact owned.client other otherBegun otherLive }

/-- `start` begins with the thread that accepts, and nothing before it is lost. -/
theorem listen (owned : server.Owned) (idle : server.stopper = .idle) :
    ({ server with running := true, listening := true, acceptor := .check } :
      FeedServer Event).Owned where
  stopping away := absurd idle away
  unstarted := owned.unstarted
  client := owned.client
  known := owned.known
  started _ absent := by cases absent
  acceptor away := absurd (.inl rfl) away
  emptied away := absurd (.inl rfl) away
  listening _ := .inl rfl

/-- The accepting thread stays where it is owned. -/
theorem accept (owned : server.Owned) {pc : AcceptPc} (on : pc ≠ .notStarted)
    (allowed : server.Accepting ∨ pc = .ended) :
    ({ server with acceptor := pc } : FeedServer Event).Owned :=
  { owned with
    started := fun _ => on
    acceptor := fun away => .inr (allowed.resolve_left away) }

/-- A client's thread is put where `stop` finds it. -/
theorem spawn (owned : server.Owned) (accepting : server.Accepting) :
    ({ server.move server.spawned .subscribe with
      acceptor := .check
      spawned := server.spawned + 1
      clientThreads := server.clientThreads ++ [server.spawned] } : FeedServer Event).Owned where
  stopping := owned.stopping
  unstarted name := by
    by_cases same : name = server.spawned
    · subst same
      simp [FeedServer.move]
    · simp only [FeedServer.move, Function.update_of_ne same, owned.unstarted name]
      omega
  client name begun live := by
    simp only [List.mem_append, List.mem_singleton]
    by_cases same : name = server.spawned
    · exact .inl (.inr same)
    · simp only [FeedServer.move, Function.update_of_ne same] at begun live
      exact (List.mem_append.mp (owned.client name begun live)).imp_left .inl
  known name member := by
    simp only [List.mem_append, List.mem_singleton] at member
    rcases member with (old | rfl) | old
    · exact Nat.lt_succ_of_lt (owned.known name (List.mem_append_left _ old))
    · exact Nat.lt_succ_self _
    · exact Nat.lt_succ_of_lt (owned.known name (List.mem_append_right _ old))
  started _ absent := by cases absent
  acceptor away := absurd accepting away
  emptied away := absurd accepting away
  listening := owned.listening

/-- A thread that accepts has not been joined. -/
theorem accepting (owned : server.Owned) (begun : server.acceptor ≠ .notStarted)
    (live : server.acceptor ≠ .ended) : server.Accepting :=
  Classical.not_not.mp fun away => (owned.acceptor away).elim begun live

/-- `stop` begins: the server no longer runs. -/
theorem callStop (owned : server.Owned) (idle : server.stopper = .idle)
    (running : server.running = true) :
    ({ server with running := false, stopper := .close } : FeedServer Event).Owned where
  stopping _ := rfl
  unstarted := owned.unstarted
  client name := by simpa [idle, FeedStopPc.taken] using owned.client name
  known name := by simpa [idle, FeedStopPc.taken] using owned.known name
  started _ := owned.started (.inl running)
  acceptor away := absurd (.inr (.inl rfl)) away
  emptied away := absurd (.inr (.inl rfl)) away
  listening _ := .inr rfl

theorem closeListener (owned : server.Owned) (closing : server.stopper = .close) :
    ({ server with listening := false, stopper := .joinAcceptor } : FeedServer Event).Owned where
  stopping _ := owned.stopping (by simp [closing])
  unstarted := owned.unstarted
  client name := by simpa [closing, FeedStopPc.taken] using owned.client name
  known name := by simpa [closing, FeedStopPc.taken] using owned.known name
  started _ := owned.started (.inr (.inl closing))
  acceptor away := absurd (.inr (.inr rfl)) away
  emptied away := absurd (.inr (.inr rfl)) away
  listening heard := by cases heard

theorem joinAcceptor (owned : server.Owned) (joining : server.stopper = .joinAcceptor)
    (ended : server.acceptor = .ended) :
    ({ server with stopper := .swap } : FeedServer Event).Owned where
  stopping _ := owned.stopping (by simp [joining])
  unstarted := owned.unstarted
  client name := by simpa [joining, FeedStopPc.taken] using owned.client name
  known name := by simpa [joining, FeedStopPc.taken] using owned.known name
  started _ := by simp [ended]
  acceptor _ := .inr ended
  emptied _ other := absurd rfl other
  listening heard := by
    rcases owned.listening heard with running | closing
    · exact .inl running
    · simp [joining] at closing

/-- The accepting thread has been joined once `stop` goes on to the clients' threads. -/
theorem not_accepting (owned : server.Owned) {pc : FeedStopPc} (here : server.stopper = pc)
    (away : pc = .swap ∨ ∃ clients, pc = .join clients) :
    server.running = false ∧ ¬ server.Accepting := by
  subst here
  have off : server.running = false := by
    refine owned.stopping ?_
    rcases away with swapping | ⟨clients, joining⟩
    · simp [swapping]
    · simp [joining]
  refine ⟨off, ?_⟩
  rcases away with swapping | ⟨clients, joining⟩
  · simp [FeedServer.Accepting, off, swapping]
  · simp [FeedServer.Accepting, off, joining]

/-- The clients' threads are taken from the vector and not lost. -/
theorem swap (owned : server.Owned) (swapping : server.stopper = .swap) :
    ({ server with clientThreads := [], stopper := .join server.clientThreads } :
      FeedServer Event).Owned := by
  obtain ⟨off, away⟩ := owned.not_accepting swapping (.inl rfl)
  exact {
    stopping := fun _ => off
    unstarted := owned.unstarted
    client := fun name => by simpa [swapping, FeedStopPc.taken] using owned.client name
    known := fun name => by simpa [swapping, FeedStopPc.taken] using owned.known name
    started := fun accepting => by simp [FeedServer.Accepting, off] at accepting
    acceptor := fun _ => owned.acceptor away
    emptied := fun _ _ => rfl
    listening := fun heard => by simpa [swapping] using owned.listening heard }

/-- A client's thread that has ended is joined. -/
theorem joinClient (owned : server.Owned) {name : Nat} {rest : List Nat}
    (joining : server.stopper = .join (name :: rest)) (ended : server.clients name = .ended) :
    ({ server with stopper := .join rest } : FeedServer Event).Owned := by
  obtain ⟨off, away⟩ := owned.not_accepting joining (.inr ⟨_, rfl⟩)
  exact {
    stopping := fun _ => off
    unstarted := owned.unstarted
    client := fun other begun live => by
      have different : other ≠ name := fun same => live (same ▸ ended)
      simpa [joining, FeedStopPc.taken, different] using owned.client other begun live
    known := fun other member => by
      refine owned.known other ?_
      rw [joining]
      exact (List.mem_append.mp member).elim (List.mem_append_left _)
        fun left => List.mem_append_right _ (List.mem_cons_of_mem _ left)
    started := fun accepting => by simp [FeedServer.Accepting, off] at accepting
    acceptor := fun _ => owned.acceptor away
    emptied := fun _ _ => owned.emptied away (by simp [joining])
    listening := fun heard => by simpa [joining] using owned.listening heard }

theorem returned (owned : server.Owned) (joined : server.stopper = .join []) :
    ({ server with stopper := .idle } : FeedServer Event).Owned := by
  obtain ⟨off, away⟩ := owned.not_accepting joined (.inr ⟨_, rfl⟩)
  exact {
    stopping := fun other => absurd rfl other
    unstarted := owned.unstarted
    client := fun name => by simpa [joined, FeedStopPc.taken] using owned.client name
    known := fun name => by simpa [joined, FeedStopPc.taken] using owned.known name
    started := fun accepting => by simp [FeedServer.Accepting, off] at accepting
    acceptor := fun _ => owned.acceptor away
    emptied := fun _ _ => owned.emptied away (by simp [joined])
    listening := fun heard => by simpa [joined] using owned.listening heard }

/-- A step of a client's thread. -/
theorem clientStep (owned : server.Owned) {target : FeedServer Event} {name : Nat}
    {action : ClientStep Event} (step : server.clientStep target name action) : target.Owned := by
  cases action with
  | subscribe subId =>
    obtain ⟨publisher, here, _, rfl⟩ := step
    exact (owned.move (by simp [here]) (by simp [here]) (by simp)).of_publisher publisher
  | check =>
    obtain ⟨subId, alive, here, rfl⟩ := step
    exact owned.move (by simp [here]) (by simp [here]) (by split_ifs <;> simp)
  | dequeue subId answer =>
    obtain ⟨publisher, here, _, rfl⟩ := step
    exact (owned.move (by simp [here]) (by simp [here])
      (by cases answer <;> simp)).of_publisher publisher
  | send outcome =>
    obtain ⟨subId, event, here, rfl⟩ := step
    exact owned.move (by simp [here]) (by simp [here]) (by cases outcome <;> simp)
  | unsubscribe subId =>
    obtain ⟨publisher, here, _, rfl⟩ := step
    exact (owned.move (by simp [here]) (by simp [here]) (by simp)).of_publisher publisher
  | close =>
    obtain ⟨here, rfl⟩ := step
    exact owned.move (by simp [here]) (by simp [here]) (by simp)

/-- Every step keeps every running thread where `stop` finds it. -/
theorem step {target : FeedServer Event} {label : FeedLabel Event} (owned : server.Owned)
    (step : (feedSystem Event).step server label target) : target.Owned := by
  cases label with
  | start bound =>
    obtain ⟨idle, rfl⟩ := step
    split_ifs with new
    · exact owned.listen idle
    · exact owned
  | callStop =>
    obtain ⟨idle, rfl⟩ := step
    split_ifs with running
    · exact owned.callStop idle running
    · exact owned
  | closeListener =>
    obtain ⟨closing, rfl⟩ := step
    exact owned.closeListener closing
  | joinAcceptor =>
    obtain ⟨joining, ended, rfl⟩ := step
    exact owned.joinAcceptor joining ended
  | swap =>
    obtain ⟨swapping, rfl⟩ := step
    exact owned.swap swapping
  | joinClient =>
    obtain ⟨name, rest, joining, ended, rfl⟩ := step
    exact owned.joinClient joining ended
  | returned =>
    obtain ⟨joined, rfl⟩ := step
    exact owned.returned joined
  | check =>
    obtain ⟨checking, rfl⟩ := step
    split_ifs with running
    · exact owned.accept AcceptPc.noConfusion (.inl (.inl running))
    · exact owned.accept AcceptPc.noConfusion (.inr rfl)
  | accepted =>
    obtain ⟨waiting, _, rfl⟩ := step
    exact owned.accept AcceptPc.noConfusion
      (.inl (owned.accepting (by simp [waiting]) (by simp [waiting])))
  | acceptFails =>
    obtain ⟨_, rfl⟩ := step
    exact owned.accept AcceptPc.noConfusion (.inr rfl)
  | spawn =>
    obtain ⟨spawning, rfl⟩ := step
    exact owned.spawn (owned.accepting (by simp [spawning]) (by simp [spawning]))
  | client name action => exact owned.clientStep step
  | others label =>
    obtain ⟨_, publisher, _, rfl⟩ := step
    exact owned.of_publisher publisher

end FeedServer.Owned

theorem FeedRun.owned {labels : List (FeedLabel Event)} {server : FeedServer Event}
    (run : FeedRun labels server) : server.Owned := by
  refine run.invariant (fun _ server => server.Owned) ?_ fun _ _ _ _ _ owned step => owned.step step
  rintro server rfl
  exact .start

/-! ### The publisher under the server -/

/-- The publisher's step in a step of the server. -/
def FeedLabel.publisher? : FeedLabel Event → Option (Broadcast.Label Event)
  | .client _ (.subscribe subId) => some (.subscribe subId)
  | .client _ (.dequeue subId answer) => some (.dequeue subId answer)
  | .client _ (.unsubscribe subId) => some (.unsubscribe subId)
  | .others label => some label
  | _ => none

/-- The clients' threads and everybody else use the publisher as it may be used. -/
theorem FeedRun.publisher {labels : List (FeedLabel Event)} {server : FeedServer Event}
    (run : FeedRun labels server) :
    Run (Broadcast.system Event) (labels.filterMap FeedLabel.publisher?) server.publisher := by
  refine run.view FeedServer.publisher FeedLabel.publisher? ?_ ?_ ?_
  · rintro server rfl
    rfl
  · intro source label target publisherLabel step selected
    cases label with
    | client name action =>
      cases action with
      | subscribe subId =>
        obtain ⟨publisher, _, done, rfl⟩ := step
        exact Option.some.inj selected ▸ done
      | dequeue subId answer =>
        obtain ⟨publisher, _, done, rfl⟩ := step
        exact Option.some.inj selected ▸ done
      | unsubscribe subId =>
        obtain ⟨publisher, _, done, rfl⟩ := step
        exact Option.some.inj selected ▸ done
      | check | send | close => cases selected
    | others label =>
      obtain ⟨_, publisher, done, rfl⟩ := step
      exact Option.some.inj selected ▸ done
    | start | callStop | closeListener | joinAcceptor | swap | joinClient | returned | check
    | accepted | acceptFails | spawn => cases selected
  · intro source label target step selected
    cases label with
    | client name action =>
      cases action with
      | check =>
        obtain ⟨_, _, _, rfl⟩ := step
        rfl
      | send outcome =>
        obtain ⟨_, _, _, rfl⟩ := step
        rfl
      | close =>
        obtain ⟨_, rfl⟩ := step
        rfl
      | subscribe | dequeue | unsubscribe => cases selected
    | start bound =>
      obtain ⟨_, rfl⟩ := step
      split_ifs <;> rfl
    | callStop =>
      obtain ⟨_, rfl⟩ := step
      split_ifs <;> rfl
    | joinClient =>
      obtain ⟨_, _, _, _, rfl⟩ := step
      rfl
    | closeListener | swap | returned | check | acceptFails | spawn =>
      obtain ⟨_, rfl⟩ := step
      rfl
    | joinAcceptor | accepted =>
      obtain ⟨_, _, rfl⟩ := step
      rfl
    | others => cases selected

/-! ### Whose subscriptions there are -/

/-- A subscription that a client's thread has made is there exactly as long as that thread
holds it. -/
structure FeedServer.Subscribed (labels : List (FeedLabel Event)) (server : FeedServer Event) :
    Prop where
  fresh : ∀ name subId, .client name (.subscribe subId) ∈ labels → subId < server.publisher.nextId
  made : ∀ name subId, (server.clients name).subId? = some subId →
    .client name (.subscribe subId) ∈ labels
  single : ∀ first second subId, (server.clients first).subId? = some subId →
    (server.clients second).subId? = some subId → first = second
  held : ∀ name subId, .client name (.subscribe subId) ∈ labels →
    (subId ∈ server.publisher.subscribers ↔ (server.clients name).subId? = some subId)

/-- A client's thread that goes on with the same `subId`. -/
theorem FeedServer.subId?_move (server : FeedServer Event) {name : Nat} {pc : ClientPc Event}
    (same : pc.subId? = (server.clients name).subId?) (other : Nat) :
    ((server.move name pc).clients other).subId? = (server.clients other).subId? := by
  by_cases equal : other = name
  · subst equal
    simp [FeedServer.move, same]
  · simp [FeedServer.move, equal]

namespace FeedServer.Subscribed

variable {labels : List (FeedLabel Event)} {server target : FeedServer Event}

theorem start : (FeedServer.initial : FeedServer Event).Subscribed [] where
  fresh _ _ member := absurd member List.not_mem_nil
  made _ _ held := by cases held
  single _ _ _ held := by cases held
  held _ _ member := absurd member List.not_mem_nil

/-- A step that neither makes nor gives up a subscription of a client's thread. -/
theorem keep {label : FeedLabel Event} (subscribed : server.Subscribed labels)
    (plain : ∀ name subId, label ≠ .client name (.subscribe subId))
    (later : server.publisher.nextId ≤ target.publisher.nextId)
    (same : ∀ name, (target.clients name).subId? = (server.clients name).subId?)
    (remain : ∀ name subId, .client name (.subscribe subId) ∈ labels →
      (subId ∈ target.publisher.subscribers ↔ subId ∈ server.publisher.subscribers)) :
    target.Subscribed (labels ++ [label]) := by
  have earlier : ∀ {name subId}, .client name (.subscribe subId) ∈ labels ++ [label] →
      .client name (.subscribe subId) ∈ labels := fun {name subId} member =>
    (List.mem_append.mp member).resolve_right fun last =>
      plain name subId (List.mem_singleton.mp last).symm
  exact {
    fresh := fun name subId member =>
      (subscribed.fresh name subId (earlier member)).trans_le later
    made := fun name subId holds =>
      List.mem_append_left _ (subscribed.made name subId (same name ▸ holds))
    single := fun first second subId one other =>
      subscribed.single first second subId (same first ▸ one) (same second ▸ other)
    held := fun name subId member => by
      rw [remain name subId (earlier member), same name]
      exact subscribed.held name subId (earlier member) }

/-- A client's thread subscribes. -/
theorem subscribe (subscribed : server.Subscribed labels) {name : Nat}
    (here : server.clients name = .subscribe) {publisher : Broadcast.State Event}
    (nextId : publisher.nextId = server.publisher.nextId + 1)
    (members : publisher.subscribers =
      server.publisher.subscribers ++ [server.publisher.nextId]) :
    ({ server.move name (.check server.publisher.nextId true) with publisher := publisher } :
      FeedServer Event).Subscribed
        (labels ++ [FeedLabel.client name (.subscribe server.publisher.nextId)]) where
  fresh other subId member := by
    show subId < publisher.nextId
    rw [nextId]
    rcases List.mem_append.mp member with old | new
    · exact Nat.lt_succ_of_lt (subscribed.fresh other subId old)
    · cases List.mem_singleton.mp new
      exact Nat.lt_succ_self _
  made other subId holds := by
    by_cases same : other = name
    · subst same
      simp only [FeedServer.move, Function.update_self, ClientPc.subId?, Option.some.injEq] at holds
      simp [holds]
    · simp only [FeedServer.move, Function.update_of_ne same] at holds
      exact List.mem_append_left _ (subscribed.made other subId holds)
  single first second subId one other := by
    have old : ∀ {client}, client ≠ name → (server.clients client).subId? = some subId →
        subId ≠ server.publisher.nextId := fun {client} _ holds =>
      (subscribed.fresh client subId (subscribed.made client subId holds)).ne
    by_cases isFirst : first = name <;> by_cases isSecond : second = name
    · rw [isFirst, isSecond]
    · simp only [FeedServer.move, isFirst, Function.update_self, ClientPc.subId?,
        Option.some.injEq, Function.update_of_ne isSecond] at one other
      exact absurd one.symm (old isSecond other)
    · simp only [FeedServer.move, isSecond, Function.update_self, ClientPc.subId?,
        Option.some.injEq, Function.update_of_ne isFirst] at one other
      exact absurd other.symm (old isFirst one)
    · simp only [FeedServer.move, Function.update_of_ne isFirst,
        Function.update_of_ne isSecond] at one other
      exact subscribed.single first second subId one other
  held other subId member := by
    show subId ∈ publisher.subscribers ↔ _
    rw [members, List.mem_append, List.mem_singleton]
    rcases List.mem_append.mp member with old | new
    · have less := subscribed.fresh other subId old
      by_cases same : other = name
      · have absent : subId ∉ server.publisher.subscribers := by
          rw [subscribed.held other subId old, same, here]
          simp [ClientPc.subId?]
        simp [FeedServer.move, same, ClientPc.subId?, absent, less.ne, less.ne']
      · simp only [FeedServer.move, Function.update_of_ne same, less.ne, or_false]
        exact subscribed.held other subId old
    · cases List.mem_singleton.mp new
      simp [FeedServer.move, ClientPc.subId?]

/-- A client's thread gives its subscription up. -/
theorem unsubscribe (subscribed : server.Subscribed labels) {name subId : Nat}
    (here : server.clients name = .unsubscribe subId) {publisher : Broadcast.State Event}
    (nextId : publisher.nextId = server.publisher.nextId)
    (members : publisher.subscribers = server.publisher.subscribers.erase subId)
    (distinct : server.publisher.subscribers.Nodup) :
    ({ server.move name .close with publisher := publisher } : FeedServer Event).Subscribed
      (labels ++ [FeedLabel.client name (.unsubscribe subId)]) := by
  have holds : (server.clients name).subId? = some subId := by rw [here]; rfl
  have earlier : ∀ {other otherId},
      FeedLabel.client other (.subscribe otherId) ∈
        labels ++ [FeedLabel.client name (.unsubscribe subId)] →
      .client other (.subscribe otherId) ∈ labels := fun {other otherId} member =>
    (List.mem_append.mp member).resolve_right fun last => by cases List.mem_singleton.mp last
  exact {
    fresh := fun other otherId member => by
      show otherId < publisher.nextId
      rw [nextId]
      exact subscribed.fresh other otherId (earlier member)
    made := fun other otherId otherHolds => by
      by_cases same : other = name
      · simp [FeedServer.move, same, ClientPc.subId?] at otherHolds
      · simp only [FeedServer.move, Function.update_of_ne same] at otherHolds
        exact List.mem_append_left _ (subscribed.made other otherId otherHolds)
    single := fun first second otherId one other => by
      by_cases isFirst : first = name
      · simp [FeedServer.move, isFirst, ClientPc.subId?] at one
      · by_cases isSecond : second = name
        · simp [FeedServer.move, isSecond, ClientPc.subId?] at other
        · simp only [FeedServer.move, Function.update_of_ne isFirst,
            Function.update_of_ne isSecond] at one other
          exact subscribed.single first second otherId one other
    held := fun other otherId member => by
      show otherId ∈ publisher.subscribers ↔ _
      rw [members, distinct.mem_erase_iff, subscribed.held other otherId (earlier member)]
      by_cases same : other = name
      · rw [same, holds]
        simp [FeedServer.move, ClientPc.subId?, eq_comm]
      · simp only [FeedServer.move, Function.update_of_ne same]
        refine and_iff_right_of_imp fun otherHolds equal => ?_
        exact same (subscribed.single other name otherId otherHolds (equal ▸ holds)) }

/-- A step of a client's thread. -/
theorem clientStep (subscribed : server.Subscribed labels) {name : Nat}
    {action : ClientStep Event} (distinct : server.publisher.subscribers.Nodup)
    (step : server.clientStep target name action) :
    target.Subscribed (labels ++ [FeedLabel.client name action]) := by
  cases action with
  | subscribe subId =>
    obtain ⟨publisher, here, ⟨_, rfl, rfl⟩, rfl⟩ := step
    exact subscribed.subscribe here rfl rfl
  | check =>
    obtain ⟨subId, alive, here, rfl⟩ := step
    refine subscribed.keep (by simp) le_rfl (server.subId?_move ?_) fun _ _ _ => Iff.rfl
    rw [here]
    split_ifs <;> rfl
  | dequeue subId answer =>
    obtain ⟨publisher, here, done, rfl⟩ := step
    obtain ⟨nextId, subscribers, _⟩ := Broadcast.dequeue_other done
    refine subscribed.keep (by simp) nextId.ge (server.subId?_move ?_) fun _ _ _ => by
      rw [subscribers]
    rw [here]
    cases answer <;> rfl
  | send outcome =>
    obtain ⟨subId, event, here, rfl⟩ := step
    refine subscribed.keep (by simp) le_rfl (server.subId?_move ?_) fun _ _ _ => Iff.rfl
    rw [here]
    cases outcome <;> rfl
  | unsubscribe subId =>
    obtain ⟨publisher, here, ⟨_, rfl⟩, rfl⟩ := step
    exact subscribed.unsubscribe here rfl rfl distinct
  | close =>
    obtain ⟨here, rfl⟩ := step
    refine subscribed.keep (by simp) le_rfl (server.subId?_move ?_) fun _ _ _ => Iff.rfl
    rw [here]
    rfl

/-- What everybody else does on the publisher leaves the subscriptions of the clients' threads. -/
theorem others_remain (subscribed : server.Subscribed labels)
    (distinct : server.publisher.subscribers.Nodup) {label : Broadcast.Label Event}
    {publisher : Broadcast.State Event}
    (allowed : ∀ name subId, (server.clients name).subId? = some subId →
      usedId? label ≠ some subId)
    (done : (Broadcast.system Event).step server.publisher label publisher) :
    server.publisher.nextId ≤ publisher.nextId ∧
      ∀ name subId, .client name (.subscribe subId) ∈ labels →
        (subId ∈ publisher.subscribers ↔ subId ∈ server.publisher.subscribers) := by
  cases label with
  | subscribe id =>
    obtain ⟨_, rfl, rfl⟩ := done
    refine ⟨Nat.le_succ _, fun name subId member => ?_⟩
    simp [(subscribed.fresh name subId member).ne]
  | unsubscribe id =>
    obtain ⟨_, rfl⟩ := done
    refine ⟨le_rfl, fun name subId member => ?_⟩
    rw [distinct.mem_erase_iff]
    refine and_iff_right_of_imp fun inside equal => ?_
    refine allowed name subId ((subscribed.held name subId member).mp inside) ?_
    rw [equal]
    rfl
  | publish items order =>
    obtain ⟨_, _, rfl⟩ := done
    exact ⟨le_rfl, fun _ _ _ => Iff.rfl⟩
  | append =>
    obtain ⟨_, _, _, _, _, rfl⟩ := done
    exact ⟨le_rfl, fun _ _ _ => Iff.rfl⟩
  | next =>
    obtain ⟨_, _, _, rfl⟩ := done
    exact ⟨le_rfl, fun _ _ _ => Iff.rfl⟩
  | release =>
    obtain ⟨_, rfl⟩ := done
    exact ⟨le_rfl, fun _ _ _ => Iff.rfl⟩
  | dequeue id answer =>
    obtain ⟨nextId, subscribers, _⟩ := Broadcast.dequeue_other done
    exact ⟨nextId.ge, fun _ _ _ => by rw [subscribers]⟩

/-- Every step keeps the subscriptions those of the clients' threads. -/
theorem step {label : FeedLabel Event} (subscribed : server.Subscribed labels)
    (run : FeedRun labels server) (step : (feedSystem Event).step server label target) :
    target.Subscribed (labels ++ [label]) := by
  have sound := Broadcast.run_sound run.publisher
  cases label with
  | client name action => exact subscribed.clientStep sound.distinct step
  | spawn =>
    obtain ⟨_, rfl⟩ := step
    refine subscribed.keep (by simp) le_rfl (server.subId?_move ?_) fun _ _ _ => Iff.rfl
    rw [(run.owned.unstarted server.spawned).mpr le_rfl]
    rfl
  | others label =>
    obtain ⟨allowed, publisher, done, rfl⟩ := step
    have remain := subscribed.others_remain sound.distinct allowed done
    exact subscribed.keep (by simp) remain.1 (fun _ => rfl) remain.2
  | start bound =>
    obtain ⟨_, rfl⟩ := step
    split_ifs <;>
      exact subscribed.keep (by simp) le_rfl (fun _ => rfl) fun _ _ _ => Iff.rfl
  | callStop =>
    obtain ⟨_, rfl⟩ := step
    split_ifs <;>
      exact subscribed.keep (by simp) le_rfl (fun _ => rfl) fun _ _ _ => Iff.rfl
  | joinClient =>
    obtain ⟨_, _, _, _, rfl⟩ := step
    exact subscribed.keep (by simp) le_rfl (fun _ => rfl) fun _ _ _ => Iff.rfl
  | closeListener | swap | returned | check | acceptFails =>
    obtain ⟨_, rfl⟩ := step
    exact subscribed.keep (by simp) le_rfl (fun _ => rfl) fun _ _ _ => Iff.rfl
  | joinAcceptor | accepted =>
    obtain ⟨_, _, rfl⟩ := step
    exact subscribed.keep (by simp) le_rfl (fun _ => rfl) fun _ _ _ => Iff.rfl

end FeedServer.Subscribed

theorem FeedRun.subscribed {labels : List (FeedLabel Event)} {server : FeedServer Event}
    (run : FeedRun labels server) : server.Subscribed labels := by
  refine run.invariant (fun labels server => server.Subscribed labels) ?_
    fun _ _ _ _ before subscribed step => subscribed.step before step
  rintro server rfl
  exact .start

/-! ### A stopped server leaves nothing behind -/

/-- While `stop` is not under way and the server is not running, its port is closed, its accepting
thread and every thread it has started for a client have ended, and none of the subscriptions they
have made is left. -/
theorem stop_leaves_nothing {labels : List (FeedLabel Event)} {server : FeedServer Event}
    (run : FeedRun labels server) (idle : server.stopper = .idle)
    (stopped : server.running = false) :
    server.listening = false ∧ server.acceptor ∈ [AcceptPc.notStarted, .ended] ∧
      server.clientThreads = [] ∧
      (∀ name, server.clients name = if name < server.spawned then .ended else .notStarted) ∧
      ∀ name subId, .client name (.subscribe subId) ∈ labels →
        subId ∉ server.publisher.subscribers := by
  have owned := run.owned
  have away : ¬ server.Accepting := by simp [FeedServer.Accepting, idle, stopped]
  have emptied := owned.emptied away (by simp [idle])
  have clients : ∀ name,
      server.clients name = if name < server.spawned then .ended else .notStarted := by
    intro name
    split_ifs with spawned
    · by_contra live
      have begun : server.clients name ≠ .notStarted := fun unstarted =>
        Nat.not_lt_of_le ((owned.unstarted name).mp unstarted) spawned
      simpa [emptied, idle, FeedStopPc.taken] using owned.client name begun live
    · exact (owned.unstarted name).mpr (Nat.le_of_not_lt spawned)
  refine ⟨?_, ?_, emptied, clients, fun name subId member => ?_⟩
  · refine Bool.eq_false_iff.mpr fun heard => ?_
    simpa [idle, stopped] using owned.listening heard
  · simpa using owned.acceptor away
  · rw [run.subscribed.held name subId member, clients name]
    split_ifs <;> simp [ClientPc.subId?]

namespace Sample

/-- A server with one client, from its start to the return of `stop`. -/
def stoppedLabels : List (FeedLabel Nat) :=
  [.start true, .check, .accepted, .spawn, .client 0 (.subscribe 1), .callStop, .client 0 .check,
    .client 0 (.unsubscribe 1), .client 0 .close, .closeListener, .check, .joinAcceptor, .swap,
    .joinClient, .returned]

/-- No step has been taken. -/
theorem unstarted : FeedRun ([] : List (FeedLabel Nat)) .initial := .start rfl

theorem stopped : ∃ server, FeedRun stoppedLabels server ∧ server.stopper = .idle ∧
    server.running = false :=
  ⟨_, unstarted.append (.cons ⟨rfl, rfl⟩ <| .cons ⟨rfl, rfl⟩ <| .cons ⟨rfl, rfl, rfl⟩ <|
    .cons ⟨rfl, rfl⟩ <| .cons ⟨_, rfl, ⟨rfl, rfl, rfl⟩, rfl⟩ <| .cons ⟨rfl, rfl⟩ <|
    .cons ⟨1, true, rfl, rfl⟩ <| .cons ⟨_, rfl, ⟨rfl, rfl⟩, rfl⟩ <| .cons ⟨rfl, rfl⟩ <|
    .cons ⟨rfl, rfl⟩ <| .cons ⟨rfl, rfl⟩ <| .cons ⟨rfl, rfl, rfl⟩ <| .cons ⟨rfl, rfl⟩ <|
    .cons ⟨0, [], rfl, rfl, rfl⟩ <| .cons ⟨rfl, rfl⟩ <| .nil _), rfl, rfl⟩

end Sample

theorem stop_leaves_nothing_sample : ∃ server : FeedServer Nat,
    FeedRun Sample.stoppedLabels server ∧ server.listening = false ∧
      1 ∉ server.publisher.subscribers := by
  obtain ⟨server, run, idle, off⟩ := Sample.stopped
  obtain ⟨closed, _, _, _, gone⟩ := stop_leaves_nothing run idle off
  exact ⟨server, run, closed, gone 0 1 (by simp [Sample.stoppedLabels])⟩

end MarketSandbox
