/-
This file shows when a live page's timeline is sorted. Frames carry times
taken at two places: a batch carries the time of its stamp, which may be long
past when it arrives, and a flushed book the time of the flush. The timeline
is sorted as long as no withheld book is flushed while a batch with an earlier
stamp is still on its way; one run shows what happens otherwise.
-/

import MarketSandbox.Gateway.Delivery
import MarketSandbox.Web.Derive
import MarketSandbox.Web.World

namespace MarketSandbox

open Transition

variable {Price : Type}

/-! ### Times to come -/

/-- The stamps of the batches on their way, in order, and the clock: what frames to come carry. -/
def World.stamps (world : World Price) : List Nat :=
  world.inFlight.map TelemetryBatch.timestamp ++ [world.clock]

/-- Frames are sorted, and none is after a time to come. -/
structure Before (stamps : List Nat) (frames : List (Frame Price)) : Prop where
  sorted : Sorted frames
  bounded : ∀ frame ∈ frames, ∀ stamp ∈ stamps, frame.atTime ≤ SafeInteger.toNumber stamp

namespace Before

variable {stamps later : List Nat} {frames : List (Frame Price)}

theorem nil : Before stamps ([] : List (Frame Price)) := ⟨.nil, fun _ member => nomatch member⟩

/-- Later times keep the bound. -/
theorem mono (before : Before stamps frames)
    (grow : ∀ stamp ∈ later, ∃ earlier ∈ stamps, earlier ≤ stamp) : Before later frames := by
  refine ⟨before.sorted, fun frame member stamp isLater => ?_⟩
  obtain ⟨earlier, isStamp, le⟩ := grow stamp isLater
  exact (before.bounded frame member earlier isStamp).trans (SafeInteger.toNumber_mono le)

/-- A frame at the least time to come may follow. -/
theorem concat (before : Before stamps frames) {frame : Frame Price} {stamp : Nat}
    (isStamp : stamp ∈ stamps) (atStamp : frame.atTime = SafeInteger.toNumber stamp)
    (subset : ∀ other ∈ later, other ∈ stamps) (least : ∀ other ∈ later, stamp ≤ other) :
    Before later (frames ++ [frame]) := by
  constructor
  · refine List.pairwise_append.mpr ⟨before.sorted, List.pairwise_singleton _ _, ?_⟩
    intro earlier member other isFrame
    rw [List.mem_singleton.mp isFrame, atStamp]
    exact before.bounded earlier member stamp isStamp
  · intro other member bound isLater
    rcases List.mem_append.mp member with old | new
    · exact before.bounded other old bound (subset bound isLater)
    · rw [List.mem_singleton.mp new, atStamp]
      exact SafeInteger.toNumber_mono (least bound isLater)

theorem sublist (before : Before stamps frames) {some : List (Frame Price)}
    (sublist : some.Sublist frames) : Before stamps some :=
  ⟨before.sorted.sublist sublist, fun frame member =>
    before.bounded frame (sublist.subset member)⟩

end Before

/-! ### The invariant -/

/-- No flush sends a withheld book to a live page while a batch stamped before the flush is still
on its way to the gateway. -/
def NoStaleFlush (world : World Price) (label : WorldLabel Price) : Prop :=
  label = .flush → world.server.normalizer.pendingBook ≠ none →
    world.browser.feed.source = .live → ∀ batch ∈ world.inFlight, world.clock ≤ batch.timestamp

/-- The times to come are in order, and the history and what a live page holds are before them. -/
structure Timely (world : World Price) : Prop where
  ordered : world.stamps.Pairwise (· ≤ ·)
  history : Before world.stamps (world.server.history.map .batch)
  held : world.browser.feed.source = .live → Before world.stamps world.browser.sinceLive

/-- The history remembers a new batch and forgets only old ones. -/
theorem Server.remember_sublist (history : List (WireBatch Price)) (batch : WireBatch Price) :
    (Server.remember history batch).Sublist (history ++ [batch]) := by
  simp only [Server.remember]
  split_ifs
  · exact List.drop_sublist _ _
  · exact .refl _

namespace Timely

variable {world : World Price}

/-- A quiet handler, with times that only get later, keeps a world in order. -/
theorem quiet (timely : Timely world) (greeted : world.browser.Greeted)
    {outcome : Server Price × List (Message Price)} (quiet : world.server.Quiet outcome)
    {target : World Price} (server : target.server = outcome.1)
    (page : target.browser = world.browser.hearAll outcome.2)
    (ordered : target.stamps.Pairwise (· ≤ ·))
    (grow : ∀ stamp ∈ target.stamps, ∃ earlier ∈ world.stamps, earlier ≤ stamp) :
    Timely target := by
  refine ⟨ordered, ?_, fun live => ?_⟩
  · rw [server, quiet.history]
    exact timely.history.mono grow
  · rw [page] at live ⊢
    exact greeted.hearAll_sinceLive quiet.broadcast quiet.frames (Before target.stamps) .nil
      (fun was => (timely.held was).mono grow) live

theorem le_clock (timely : Timely world) : ∀ stamp ∈ world.stamps, stamp ≤ world.clock := by
  intro stamp member
  rcases List.mem_append.mp member with flying | isClock
  · exact (List.pairwise_append.mp timely.ordered).2.2 stamp flying _ List.mem_cons_self
  · exact (List.mem_singleton.mp isClock).le

theorem flush (timely : Timely world) (greeted : world.browser.Greeted)
    (allowed : world.server.normalizer.pendingBook ≠ none → world.browser.feed.source = .live →
      ∀ batch ∈ world.inFlight, world.clock ≤ batch.timestamp) :
    Timely (world.handle (world.server.flush world.dateNow)) := by
  cases pending : world.server.normalizer.pendingBook with
  | none =>
    rw [Server.flush_none _ pending]
    exact ⟨timely.ordered, timely.history, timely.held⟩
  | some book =>
    rw [Server.flush_some _ pending]
    refine ⟨timely.ordered, timely.history, fun live => ?_⟩
    refine greeted.session.hear_sinceLive
      (fun frames => world.browser.feed.source = .live ∧ Before world.stamps frames) _ .nil ?_
      (fun was => ⟨was, timely.held was⟩) live
    rintro frames ⟨was, before⟩
    refine before.concat (List.mem_append_right _ List.mem_cons_self) rfl
      (fun _ member => member) ?_
    intro stamp member
    rcases List.mem_append.mp member with flying | isClock
    · obtain ⟨batch, inFlight, rfl⟩ := List.mem_map.mp flying
      exact allowed (by rw [pending]; simp) was batch inFlight
    · exact (List.mem_singleton.mp isClock).ge

end Timely

section Steps

variable [Zero Price] [DecidableEq Price]

theorem normalize_atTime (normalizer : Normalizer Price) (batch : TelemetryBatch Price)
    (now : Int) :
    (normalizer.normalize batch.decode now).1.atTime = SafeInteger.toNumber batch.timestamp := by
  have stamp : num batch.decode.timestamp = SafeInteger.toNumber batch.timestamp :=
    num_presentNumber _
  unfold Normalizer.normalize
  dsimp only
  split
  · exact stamp
  · split_ifs <;> exact stamp

namespace Timely

variable {world : World Price}

theorem deliver (timely : Timely world) (greeted : world.browser.Greeted)
    {batch : TelemetryBatch Price} {rest : List (TelemetryBatch Price)}
    (first : world.inFlight = batch :: rest) {target : World Price}
    (flying : target.inFlight = rest) (clock : target.clock = world.clock)
    (history : target.server.history = Server.remember world.server.history
      (world.server.normalizer.normalize batch.decode world.dateNow).1)
    (page : target.browser = world.browser.hear
      (.batch (world.server.normalizer.normalize batch.decode world.dateNow).1)) :
    Timely target := by
  have stamps : world.stamps = batch.timestamp :: target.stamps := by
    rw [World.stamps, World.stamps, first, flying, clock]
    rfl
  have ordered := timely.ordered
  rw [stamps] at ordered
  obtain ⟨least, rest⟩ := List.pairwise_cons.mp ordered
  have append : ∀ frames : List (Frame Price), Before world.stamps frames →
      Before target.stamps (frames ++
        [.batch (world.server.normalizer.normalize batch.decode world.dateNow).1]) := by
    intro frames before
    rw [stamps] at before
    exact before.concat List.mem_cons_self (normalize_atTime _ _ _)
      (fun other member => List.mem_cons_of_mem _ member) least
  refine ⟨rest, ?_, fun live => ?_⟩
  · rw [history]
    refine (append _ timely.history).sublist ?_
    have kept := (Server.remember_sublist world.server.history
      (world.server.normalizer.normalize batch.decode world.dateNow).1).map Frame.batch
    rwa [List.map_append] at kept
  · rw [page] at live ⊢
    exact greeted.session.hear_sinceLive _ _ .nil append timely.held live

theorem step (timely : Timely world) (greeted : world.browser.Greeted) {target : World Price}
    {label : WorldLabel Price} (allowed : NoStaleFlush world label)
    (step : (worldSystem Price).step world label target) : Timely target := by
  have same : ∀ stamp ∈ world.stamps, ∃ earlier ∈ world.stamps, earlier ≤ stamp :=
    fun stamp member => ⟨stamp, member, le_rfl⟩
  cases label with
  | advance clock =>
    obtain ⟨later, rfl⟩ := step
    have initial := List.pairwise_append.mp timely.ordered
    refine timely.quiet greeted world.server.quiet_nothing rfl rfl ?_ ?_
    · refine List.pairwise_append.mpr ⟨initial.1, List.pairwise_singleton _ _, ?_⟩
      intro stamp flying other isClock
      rw [List.mem_singleton.mp isClock]
      exact (initial.2.2 stamp flying _ List.mem_cons_self).trans later
    · intro stamp member
      rcases List.mem_append.mp member with flying | isClock
      · exact ⟨stamp, List.mem_append_left _ flying, le_rfl⟩
      · rw [List.mem_singleton.mp isClock]
        exact ⟨world.clock, List.mem_append_right _ List.mem_cons_self, later⟩
  | process batch =>
    obtain ⟨stamped, rfl⟩ := step
    have stamps : ({ world with inFlight := world.inFlight ++ [batch] } : World Price).stamps =
        world.stamps ++ [world.clock] := by
      simp only [World.stamps, List.map_append, List.map_singleton, stamped]
    refine timely.quiet greeted world.server.quiet_nothing rfl rfl ?_ ?_
    · rw [stamps]
      refine List.pairwise_append.mpr ⟨timely.ordered, List.pairwise_singleton _ _, ?_⟩
      intro stamp member other isClock
      rw [List.mem_singleton.mp isClock]
      exact timely.le_clock stamp member
    · rw [stamps]
      intro stamp member
      rcases List.mem_append.mp member with old | isClock
      · exact ⟨stamp, old, le_rfl⟩
      · rw [List.mem_singleton.mp isClock]
        exact ⟨world.clock, List.mem_append_right _ List.mem_cons_self, le_rfl⟩
  | deliver =>
    obtain ⟨batch, rest, first, rfl⟩ := step
    exact timely.deliver greeted first rfl rfl rfl rfl
  | metadata =>
    obtain rfl := step
    exact timely.quiet greeted world.server.onMetadata_quiet rfl rfl timely.ordered same
  | down =>
    obtain rfl := step
    refine timely.quiet greeted world.server.down_quiet rfl rfl (List.pairwise_singleton _ _) ?_
    exact fun stamp member => ⟨stamp, List.mem_append_right _ member, le_rfl⟩
  | flush =>
    obtain rfl := step
    exact timely.flush greeted (allowed rfl)
  | startRecording file =>
    obtain rfl := step
    exact timely.quiet greeted (world.server.startRecording_quiet file) rfl rfl timely.ordered same
  | stopRecording =>
    obtain rfl := step
    exact timely.quiet greeted world.server.stopRecording_quiet rfl rfl timely.ordered same
  | connection =>
    obtain ⟨connecting, rfl⟩ := step
    exact ⟨timely.ordered, timely.history, greeted.session.sinceLive_onConnection connecting
      world.server .nil timely.history⟩
  | result reqId =>
    obtain rfl := step
    exact timely.quiet greeted (world.server.result_quiet reqId) rfl rfl timely.ordered same
  | page label =>
    obtain ⟨isLocal, browser, moved, rfl⟩ := step
    refine ⟨timely.ordered, timely.history, fun live => ?_⟩
    obtain ⟨was, sinceLive⟩ := (greeted.session.moves isLocal moved).2 live
    change Before world.stamps browser.sinceLive
    rw [sinceLive]
    exact timely.held was

end Timely

theorem worldRun_timely {labels : List (WorldLabel Price)} {world : World Price}
    (run : Run ((worldSystem Price).restrict NoStaleFlush) labels world) : Timely world := by
  refine run.invariant (fun _ world => Timely world) ?_ ?_
  · rintro world rfl
    exact ⟨List.pairwise_singleton _ _, .nil, fun live => nomatch live⟩
  · exact fun _ _ _ _ before timely step =>
      timely.step (worldRun_greeted before.of_restrict) step.1 step.2

/-- In every run in which no withheld book is flushed to a live page while a batch with an earlier
stamp is on its way, the timeline of a live page is sorted, and the page's index finds the last
frame not after any time. -/
theorem timeline_sorted {labels : List (WorldLabel Price)} {world : World Price}
    (run : Run ((worldSystem Price).restrict NoStaleFlush) labels world)
    (live : world.browser.feed.source = .live) :
    Sorted world.browser.sinceLive ∧ Sorted world.browser.feed.frames ∧
      (∀ vt, world.browser.feed.IsLastAt vt (world.browser.feed.indexAt vt)) ∧
      world.browser.feed.indexAt world.browser.feed.lastAt =
        world.browser.feed.frames.length - 1 := by
  have received := ((worldRun_timely run).held live).sorted
  obtain ⟨trimmed, whole, _⟩ := (worldRun_greeted run.of_restrict).session.kept live
  have sorted : Sorted world.browser.feed.frames :=
    received.sublist (whole ▸ List.sublist_append_right _ _)
  exact ⟨received, sorted, Feed.indexAt_spec sorted, Feed.indexAt_lastAt sorted⟩

end Steps

/-! ### A stale flush -/

namespace Sample

theorem notFlush (world : World ℚ) (label : WorldLabel ℚ) (other : label ≠ .flush) :
    NoStaleFlush world label := fun same => absurd same other

/-- The world in which the book of the second bid is withheld. -/
def withheld : World ℚ := arrived (made (arrived (made (greeted listening) firstBid)) secondBid)

theorem withheld_run : ∃ labels, Run ((worldSystem ℚ).restrict NoStaleFlush) labels withheld := by
  have connected : Run ((worldSystem ℚ).restrict NoStaleFlush)
      (untilListening ++ [WorldLabel.connection])
      (greeted listening) := (listening_run notFlush).next ⟨fun same => (nomatch same), rfl, rfl⟩
  have first := arrived_run notFlush (made_run notFlush connected firstBid (by decide))
    (List.cons_ne_nil _ _)
  exact ⟨_, arrived_run notFlush (made_run notFlush first secondBid (by decide))
    (List.cons_ne_nil _ _)⟩

end Sample

theorem timeline_sorted_sample : Sorted (Sample.flushed Sample.withheld).browser.feed.frames := by
  obtain ⟨labels, run⟩ := Sample.withheld_run
  have advanced : Run ((worldSystem ℚ).restrict NoStaleFlush) (labels ++ [WorldLabel.advance 1050])
      { Sample.withheld with clock := 1050 } :=
    run.next ⟨fun same => (nomatch same), by decide, rfl⟩
  have flushed : Run ((worldSystem ℚ).restrict NoStaleFlush)
      (labels ++ [WorldLabel.advance 1050] ++ [WorldLabel.flush])
      (Sample.flushed Sample.withheld) :=
    advanced.next ⟨fun _ _ _ _ member => (nomatch member), rfl⟩
  exact (timeline_sorted flushed (by decide +kernel)).2.1

/-- A book flushed while an earlier batch is on its way makes the page's frames go back in time
when the batch arrives. -/
theorem stale_flush_unsorts :
    ¬ ∀ (labels : List (WorldLabel ℚ)) (world : World ℚ), Run (worldSystem ℚ) labels world →
      world.browser.feed.source = .live → Sorted world.browser.feed.frames := by
  intro always
  obtain ⟨labels, run⟩ := Sample.withheld_run
  have flying := (Sample.made_run Sample.notFlush run Sample.thirdBid (by decide)).of_restrict
  have advanced : Run (worldSystem ℚ)
      (labels ++ [WorldLabel.advance 1020] ++ [WorldLabel.process _] ++ [WorldLabel.advance 1050])
      { Sample.made Sample.withheld Sample.thirdBid with clock := 1050 } :=
    flying.next ⟨by decide, rfl⟩
  have flushed : Run (worldSystem ℚ) (_ ++ [WorldLabel.flush])
      (Sample.flushed (Sample.made Sample.withheld Sample.thirdBid)) := advanced.next rfl
  have delivered : Run (worldSystem ℚ) (_ ++ [WorldLabel.deliver])
      (Sample.arrived (Sample.flushed (Sample.made Sample.withheld Sample.thirdBid))) :=
    flushed.next ⟨_, [], rfl, rfl⟩
  have sorted := always _ _ delivered (by decide +kernel)
  exact absurd sorted (by decide +kernel)

end MarketSandbox
