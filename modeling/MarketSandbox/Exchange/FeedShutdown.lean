/-
This file proves that stopping the feed server ends. Once the flag is clear, the
accepting thread and every client's thread have a bounded number of steps left,
and so has `stop`; and as long as `stop` has not returned, one of them can go on,
or the publication that holds the publisher's mutex can. So no thread waits for
`stop` while `stop` waits for that thread.
-/

import MarketSandbox.Exchange.FeedServer
import Mathlib.Algebra.Order.BigOperators.Group.Finset

namespace MarketSandbox

open Transition

variable {Event : Type}

/-! ### Stopping ends -/

/-- How many steps the accepting thread can still take when the flag is clear, with those of the
client it may still start. -/
def AcceptPc.remaining : AcceptPc → Nat
  | .notStarted | .ended => 0
  | .check => 1
  | .spawn => 7
  | .accept => 8

/-- How many steps a client's thread can still take when the flag is clear. -/
def ClientPc.remaining : ClientPc Event → Nat
  | .notStarted | .ended => 0
  | .close => 1
  | .unsubscribe _ => 2
  | .check _ _ => 3
  | .send _ _ | .subscribe => 4
  | .dequeue _ => 5

/-- How many steps `stop` has still to take, but for the joins of the clients' threads that are
not yet in the vector. -/
def FeedServer.stopRemaining (server : FeedServer Event) : Nat :=
  match server.stopper with
  | .idle => 0
  | .join clients => clients.length + 1
  | .swap => server.clientThreads.length + 2
  | .joinAcceptor => server.clientThreads.length + 3
  | .close => server.clientThreads.length + 4

/-- How many steps the server's threads can still take when the flag is clear. -/
def FeedServer.remaining (server : FeedServer Event) : Nat :=
  server.stopRemaining + server.acceptor.remaining +
    ∑ name ∈ Finset.range server.spawned, (server.clients name).remaining

/-- A step of one of the server's threads, `stop` included. -/
def FeedLabel.own : FeedLabel Event → Bool
  | .start _ | .callStop | .others _ => false
  | .closeListener | .joinAcceptor | .swap | .joinClient | .returned | .check | .accepted
  | .acceptFails | .spawn | .client _ _ => true

/-- A step of the publication under way. -/
def FeedLabel.publishes : FeedLabel Event → Bool
  | .others .append | .others .next | .others .release => true
  | _ => false

/-- A client's thread that goes on has less to do. -/
theorem FeedServer.remaining_move {server : FeedServer Event} (owned : server.Owned) {name : Nat}
    {pc : ClientPc Event} (less : pc.remaining < (server.clients name).remaining) :
    (server.move name pc).remaining < server.remaining := by
  have begun : name < server.spawned := by
    by_contra later
    rw [(owned.unstarted name).mpr (Nat.le_of_not_lt later)] at less
    exact Nat.not_lt_zero _ less
  refine Nat.add_lt_add_left (Finset.sum_lt_sum (fun other _ => ?_) ⟨name, ?_, ?_⟩) _
  · by_cases same : other = name
    · subst same
      simpa [FeedServer.move] using less.le
    · simp [FeedServer.move, same]
  · exact Finset.mem_range.mpr begun
  · simpa [FeedServer.move] using less

/-- Spawning a thread leaves less to do, the thread's own steps and its join included. -/
theorem FeedServer.remaining_spawn {source : FeedServer Event} (owned : source.Owned)
    (off : source.running = false) (spawning : source.acceptor = .spawn) :
    ({ source.move source.spawned .subscribe with
      acceptor := .check
      spawned := source.spawned + 1
      clientThreads := source.clientThreads ++ [source.spawned] } : FeedServer Event).remaining +
        1 ≤ source.remaining := by
  have clients : (∑ name ∈ Finset.range (source.spawned + 1),
      (Function.update source.clients source.spawned .subscribe name).remaining) =
      (∑ name ∈ Finset.range source.spawned, (source.clients name).remaining) + 4 := by
    rw [Finset.sum_range_succ, Function.update_self]
    refine congrArg (· + 4) (Finset.sum_congr rfl fun name member => ?_)
    rw [Function.update_of_ne (Finset.mem_range.mp member).ne]
  have accepting := owned.accepting (by simp [spawning]) (by simp [spawning])
  simp only [FeedServer.Accepting, off, Bool.false_eq_true, false_or] at accepting
  simp only [FeedServer.remaining, FeedServer.stopRemaining, FeedServer.move, spawning, clients,
    AcceptPc.remaining]
  rcases accepting with closing | joining
  · simp only [closing, List.length_append, List.length_singleton]
    omega
  · simp only [joining, List.length_append, List.length_singleton]
    omega

/-- A step of a client's thread after the server has stopped running. -/
theorem FeedServer.remaining_client {source target : FeedServer Event} {name : Nat}
    {action : ClientStep Event} (owned : source.Owned) (off : source.running = false)
    (step : source.clientStep target name action) :
    target.stopper = source.stopper ∧
      target.remaining + (if (FeedLabel.client name action).own then 1 else 0) ≤
        source.remaining := by
  cases action with
  | subscribe subId =>
    obtain ⟨publisher, here, _, rfl⟩ := step
    exact ⟨rfl, FeedServer.remaining_move owned (by simp [here, ClientPc.remaining])⟩
  | check =>
    obtain ⟨subId, alive, here, rfl⟩ := step
    exact ⟨rfl, FeedServer.remaining_move owned (by simp [here, off, ClientPc.remaining])⟩
  | dequeue subId answer =>
    obtain ⟨publisher, here, _, rfl⟩ := step
    refine ⟨rfl, FeedServer.remaining_move owned ?_⟩
    cases answer <;> simp [here, ClientPc.remaining]
  | send outcome =>
    obtain ⟨subId, event, here, rfl⟩ := step
    refine ⟨rfl, FeedServer.remaining_move owned ?_⟩
    cases outcome <;> simp [here, ClientPc.remaining]
  | unsubscribe subId =>
    obtain ⟨publisher, here, _, rfl⟩ := step
    exact ⟨rfl, FeedServer.remaining_move owned (by simp [here, ClientPc.remaining])⟩
  | close =>
    obtain ⟨here, rfl⟩ := step
    exact ⟨rfl, FeedServer.remaining_move owned (by simp [here, ClientPc.remaining])⟩

/-- While `stop` is under way, every step of a thread of the server leaves less to do, and no other
step leaves more. -/
theorem FeedServer.remaining_step {source target : FeedServer Event} {label : FeedLabel Event}
    (owned : source.Owned) (stopping : source.stopper ≠ .idle) (pending : label ≠ .returned)
    (step : (feedSystem Event).step source label target) :
    target.stopper ≠ .idle ∧
      target.remaining + (if label.own then 1 else 0) ≤ source.remaining := by
  have off := owned.stopping stopping
  cases label with
  | start => exact absurd step.1 stopping
  | callStop => exact absurd step.1 stopping
  | returned => exact absurd rfl pending
  | closeListener =>
    obtain ⟨closing, rfl⟩ := step
    refine ⟨by simp, ?_⟩
    simp only [FeedServer.remaining, FeedServer.stopRemaining, closing, FeedLabel.own, if_true]
    omega
  | joinAcceptor =>
    obtain ⟨joining, _, rfl⟩ := step
    refine ⟨by simp, ?_⟩
    simp only [FeedServer.remaining, FeedServer.stopRemaining, joining, FeedLabel.own, if_true]
    omega
  | swap =>
    obtain ⟨swapping, rfl⟩ := step
    refine ⟨by simp, ?_⟩
    simp only [FeedServer.remaining, FeedServer.stopRemaining, swapping, FeedLabel.own, if_true]
    omega
  | joinClient =>
    obtain ⟨name, rest, joining, _, rfl⟩ := step
    refine ⟨by simp, ?_⟩
    simp only [FeedServer.remaining, FeedServer.stopRemaining, joining, List.length_cons,
      FeedLabel.own, if_true]
    omega
  | check =>
    obtain ⟨checking, rfl⟩ := step
    refine ⟨stopping, ?_⟩
    simp only [FeedServer.remaining, FeedServer.stopRemaining, checking, off,
      Bool.false_eq_true, if_false, AcceptPc.remaining, FeedLabel.own, if_true]
    omega
  | accepted =>
    obtain ⟨waiting, _, rfl⟩ := step
    refine ⟨stopping, ?_⟩
    simp only [FeedServer.remaining, FeedServer.stopRemaining, waiting,
      AcceptPc.remaining, FeedLabel.own, if_true]
    omega
  | acceptFails =>
    obtain ⟨waiting, rfl⟩ := step
    refine ⟨stopping, ?_⟩
    simp only [FeedServer.remaining, FeedServer.stopRemaining, waiting,
      AcceptPc.remaining, FeedLabel.own, if_true]
    omega
  | spawn =>
    obtain ⟨spawning, rfl⟩ := step
    exact ⟨stopping, FeedServer.remaining_spawn owned off spawning⟩
  | client name action =>
    obtain ⟨same, less⟩ := FeedServer.remaining_client owned off step
    exact ⟨same ▸ stopping, less⟩
  | others label =>
    obtain ⟨_, publisher, _, rfl⟩ := step
    exact ⟨stopping, le_rfl⟩

/-- A publication under way can always go on. -/
theorem FeedServer.publishes_step (server : FeedServer Event)
    (under : server.publisher.work ≠ none) :
    ∃ label target, label.publishes ∧ (feedSystem Event).step server label target := by
  obtain ⟨work, working⟩ := Option.ne_none_iff_exists'.mp under
  match work, working with
  | [], working =>
    exact ⟨.others .release, _, rfl, by simp [usedId?], _, ⟨working, rfl⟩, rfl⟩
  | (id, []) :: rest, working =>
    exact ⟨.others .next, _, rfl, by simp [usedId?], _, ⟨id, rest, working, rfl⟩, rfl⟩
  | (id, item :: items) :: rest, working =>
    exact ⟨.others .append, _, rfl, by simp [usedId?], _,
      ⟨id, item, items, rest, working, rfl⟩, rfl⟩

/-- A client's thread that runs can go on, or the publication under way can. -/
theorem FeedServer.client_step {labels : List (FeedLabel Event)} {server : FeedServer Event}
    (run : FeedRun labels server) {name : Nat} (begun : server.clients name ≠ .notStarted)
    (live : server.clients name ≠ .ended) :
    ∃ label target, (label.own ∨ label.publishes) ∧
      (feedSystem Event).step server label target := by
  have publication : server.publisher.work ≠ none →
      ∃ label target, (label.own ∨ label.publishes) ∧
        (feedSystem Event).step server label target := by
    intro under
    obtain ⟨label, target, publishes, step⟩ := server.publishes_step under
    exact ⟨label, target, .inr publishes, step⟩
  by_cases free : server.publisher.work = none
  · cases here : server.clients name with
    | notStarted => exact absurd here begun
    | subscribe =>
      exact ⟨.client name (.subscribe server.publisher.nextId), _, .inl rfl, _, here,
        ⟨free, rfl, rfl⟩, rfl⟩
    | check subId alive => exact ⟨.client name .check, _, .inl rfl, subId, alive, here, rfl⟩
    | dequeue subId =>
      have known : subId < server.publisher.nextId :=
        run.subscribed.fresh name subId (run.subscribed.made name subId (by rw [here]; rfl))
      exact ⟨.client name (.dequeue subId (server.publisher.queue subId).head?), _, .inl rfl, _,
        here, ⟨known, .inl ⟨rfl, rfl⟩⟩, rfl⟩
    | send subId event =>
      exact ⟨.client name (.send .failed), _, .inl rfl, subId, event, here, rfl⟩
    | unsubscribe subId =>
      exact ⟨.client name (.unsubscribe subId), _, .inl rfl, _, here, ⟨free, rfl⟩, rfl⟩
    | close => exact ⟨.client name .close, _, .inl rfl, here, rfl⟩
    | ended => exact absurd here live
  · exact publication free

/-- While `stop` is under way, it or a thread it waits for can go on, or the publication under way
can. -/
theorem FeedServer.stop_step {labels : List (FeedLabel Event)} {server : FeedServer Event}
    (run : FeedRun labels server) (stopping : server.stopper ≠ .idle) :
    ∃ label target, (label.own ∨ label.publishes) ∧
      (feedSystem Event).step server label target := by
  cases stopper : server.stopper with
  | idle => exact absurd stopper stopping
  | close => exact ⟨.closeListener, _, .inl rfl, stopper, rfl⟩
  | joinAcceptor =>
    cases acceptor : server.acceptor with
    | notStarted => exact absurd acceptor (run.owned.started (.inr (.inr stopper)))
    | check => exact ⟨.check, _, .inl rfl, acceptor, rfl⟩
    | accept => exact ⟨.acceptFails, _, .inl rfl, acceptor, rfl⟩
    | spawn => exact ⟨.spawn, _, .inl rfl, acceptor, rfl⟩
    | ended => exact ⟨.joinAcceptor, _, .inl rfl, stopper, acceptor, rfl⟩
  | swap => exact ⟨.swap, _, .inl rfl, stopper, rfl⟩
  | join clients =>
    cases clients with
    | nil => exact ⟨.returned, _, .inl rfl, stopper, rfl⟩
    | cons name rest =>
      by_cases ended : server.clients name = .ended
      · exact ⟨.joinClient, _, .inl rfl, name, rest, stopper, ended, rfl⟩
      · refine FeedServer.client_step run (fun unstarted => ?_) ended
        refine Nat.not_lt_of_le ((run.owned.unstarted name).mp unstarted) (run.owned.known name ?_)
        simp [stopper, FeedStopPc.taken]

/-- How many steps the publication under way has still to take. -/
def publicationRemaining (work : Option (List (Nat × List Event))) : Nat :=
  match work with
  | none => 0
  | some entries => (entries.flatMap Prod.snd).length + entries.length + 1

/-- A step of the publication leaves it less to do, and the server's threads as much as before. -/
theorem FeedServer.publication_step {source target : FeedServer Event} {label : FeedLabel Event}
    (publishes : label.publishes) (step : (feedSystem Event).step source label target) :
    target.remaining = source.remaining ∧
      publicationRemaining target.publisher.work < publicationRemaining source.publisher.work := by
  cases label with
  | others label =>
    obtain ⟨_, publisher, done, rfl⟩ := step
    refine ⟨rfl, ?_⟩
    cases label with
    | append =>
      obtain ⟨id, item, items, rest, working, rfl⟩ := done
      simp [publicationRemaining, working]
    | next =>
      obtain ⟨id, rest, working, rfl⟩ := done
      simp [publicationRemaining, working]
    | release =>
      obtain ⟨working, rfl⟩ := done
      simp [publicationRemaining, working]
    | subscribe | unsubscribe | publish | dequeue => cases publishes
  | start | callStop | closeListener | joinAcceptor | swap | joinClient | returned | check
  | accepted | acceptFails | spawn | client => cases publishes

/-- A step of the server's threads begins or ends no publication. -/
theorem FeedServer.own_step {source target : FeedServer Event} {label : FeedLabel Event}
    (own : label.own) (step : (feedSystem Event).step source label target) :
    target.publisher.work = source.publisher.work := by
  cases label with
  | client name action =>
    cases action with
    | subscribe subId =>
      obtain ⟨_, _, ⟨_, _, rfl⟩, rfl⟩ := step
      rfl
    | dequeue subId answer =>
      obtain ⟨_, _, done, rfl⟩ := step
      exact (Broadcast.dequeue_other done).2.2
    | unsubscribe subId =>
      obtain ⟨_, _, ⟨_, rfl⟩, rfl⟩ := step
      rfl
    | check | send =>
      obtain ⟨_, _, _, rfl⟩ := step
      rfl
    | close =>
      obtain ⟨_, rfl⟩ := step
      rfl
  | joinClient =>
    obtain ⟨_, _, _, _, rfl⟩ := step
    rfl
  | closeListener | swap | returned | check | acceptFails | spawn =>
    obtain ⟨_, rfl⟩ := step
    rfl
  | joinAcceptor | accepted =>
    obtain ⟨_, _, rfl⟩ := step
    rfl
  | start | callStop | others => cases own

/-- While `stop` is under way, the threads it waits for and the publication under way can bring it
to its end by themselves. -/
theorem FeedServer.stop_ends {labels : List (FeedLabel Event)} {server : FeedServer Event}
    (run : FeedRun labels server) (stopping : server.stopper ≠ .idle) :
    ∃ more final, Steps (feedSystem Event) server more final ∧
      (∀ label ∈ more, label.own ∨ label.publishes) ∧ final.stopper = .idle ∧
      final.running = false := by
  generalize measured : server.remaining + publicationRemaining server.publisher.work = measure
  induction measure using Nat.strong_induction_on generalizing labels server with
  | h measure inductionHypothesis =>
    obtain ⟨label, next, mine, step⟩ := FeedServer.stop_step run stopping
    by_cases last : label = .returned
    · subst last
      refine ⟨[.returned], next, .single step, by simpa using mine, ?_, ?_⟩
      · rw [step.2]
      · rw [step.2]
        exact run.owned.stopping stopping
    · obtain ⟨onward, less⟩ := FeedServer.remaining_step run.owned stopping last step
      have shrinks : next.remaining + publicationRemaining next.publisher.work < measure := by
        rcases mine with own | publishes
        · rw [if_pos own] at less
          rw [FeedServer.own_step own step]
          omega
        · obtain ⟨same, fewer⟩ := FeedServer.publication_step publishes step
          omega
      obtain ⟨more, final, steps, all, idle, off⟩ :=
        inductionHypothesis _ shrinks (run.next step) onward rfl
      exact ⟨label :: more, final, .cons step steps, List.forall_mem_cons.mpr ⟨mine, all⟩, idle,
        off⟩

/-- Once `stop` is under way, the server's threads take a bounded number of steps before it
returns, whatever is done with the publisher meanwhile; and at any moment they and the publication
under way can bring it to its return by themselves. -/
theorem stop_returns {labels back : List (FeedLabel Event)} {server target : FeedServer Event}
    (run : FeedRun labels server) (stopping : server.stopper ≠ .idle)
    (steps : Steps (feedSystem Event) server back target) (under : .returned ∉ back) :
    (back.filter FeedLabel.own).length ≤ server.remaining ∧
      ∃ more final, Steps (feedSystem Event) target more final ∧
        (∀ label ∈ more, label.own ∨ label.publishes) ∧ final.stopper = .idle ∧
        final.running = false := by
  obtain ⟨⟨_, still⟩, count⟩ := steps.count_le
    (fun server => server.Owned ∧ server.stopper ≠ .idle) FeedServer.remaining FeedLabel.own
    (fun source label next member before step => by
      have pending : label ≠ .returned := fun same => under (same ▸ member)
      obtain ⟨onward, less⟩ := FeedServer.remaining_step before.1 before.2 pending step
      exact ⟨⟨before.1.step step, onward⟩, less⟩) ⟨run.owned, stopping⟩
  exact ⟨by omega, FeedServer.stop_ends (run.append steps) still⟩

namespace Sample

/-- A client is being served when the server is stopped. -/
def feedLabels : List (FeedLabel Nat) :=
  [.start true, .check, .accepted, .spawn, .client 0 (.subscribe 1), .callStop]

theorem feedServed : ∃ server, FeedRun feedLabels server ∧ server.stopper = .close ∧
    Steps (feedSystem Nat) server [.client 0 .check] (server.move 0 (.unsubscribe 1)) :=
  ⟨_, unstarted.append (.cons ⟨rfl, rfl⟩ <| .cons ⟨rfl, rfl⟩ <| .cons ⟨rfl, rfl, rfl⟩ <|
    .cons ⟨rfl, rfl⟩ <| .cons ⟨_, rfl, ⟨rfl, rfl, rfl⟩, rfl⟩ <| .cons ⟨rfl, rfl⟩ <| .nil _), rfl,
    .single ⟨1, true, rfl, rfl⟩⟩

end Sample

theorem stop_returns_sample : ∃ server : FeedServer Nat, FeedRun Sample.feedLabels server ∧
    ∃ more final,
      Steps (feedSystem Nat) (server.move 0 (.unsubscribe 1)) more final ∧
        (∀ label ∈ more, label.own ∨ label.publishes) ∧ final.stopper = .idle ∧
        final.running = false := by
  obtain ⟨server, run, closing, steps⟩ := Sample.feedServed
  exact ⟨server, run, (stop_returns run (by simp [closing]) steps (by simp)).2⟩

end MarketSandbox
