/-
This file relates what a live page holds to everything the gateway has ever sent
to its pages. The gateway remembers its last batches; a page that connects is
given them, hears what is broadcast from then on, and keeps it, but for the
oldest frames when there are too many. So the frames of a live page are the
gateway's last ones: some last batches of what was sent before a moment, and
everything sent after it.
-/

import MarketSandbox.Web.World

namespace MarketSandbox

open Transition

variable {Price : Type}

/-! ### What the gateway has sent -/

/-- The batches among frames. -/
def batchesOf (frames : List (Frame Price)) : List (WireBatch Price) :=
  frames.filterMap Frame.batch?

theorem batchesOf_append (front back : List (Frame Price)) :
    batchesOf (front ++ back) = batchesOf front ++ batchesOf back :=
  List.filterMap_append

theorem batchesOf_map (batches : List (WireBatch Price)) :
    batchesOf (batches.map .batch) = batches := by
  rw [batchesOf, List.filterMap_map]
  exact List.filterMap_some

section Sent

variable [Zero Price] [DecidableEq Price]

/-- The messages that the gateway broadcasts in a step. -/
def World.broadcasts (world : World Price) : WorldLabel Price → List (Message Price)
  | .deliver => match world.inFlight with
    | [] => []
    | batch :: _ => (world.server.onData batch.decode world.dateNow).2
  | .metadata => world.server.onMetadata.2
  | .down => world.server.down.2
  | .flush => (world.server.flush world.dateNow).2
  | .startRecording file => (world.server.startRecording file).2
  | .stopRecording => world.server.stopRecording.2
  | .result reqId => [.result reqId]
  | .advance _ | .process _ | .connection | .page _ => []

/-- The frames that the gateway broadcasts in a step. -/
def World.sends (world : World Price) (label : WorldLabel Price) : List (Frame Price) :=
  (world.broadcasts label).flatMap Message.frames

/-- The world with the frames that the gateway has sent so far. -/
def relaySystem (Price : Type) [Zero Price] [DecidableEq Price] :
    System (World Price × List (Frame Price)) (WorldLabel Price) :=
  (worldSystem Price).withHistory [] fun sent world label => sent ++ world.sends label

end Sent

/-- The frames that a page may hold: some last batches of what was sent before a moment, and
everything sent after it. -/
def Relayed (sent frames : List (Frame Price)) : Prop :=
  ∃ front back older, sent = front ++ back ∧ older <:+ batchesOf front ∧
    frames = older.map .batch ++ back

namespace Relayed

variable {sent frames : List (Frame Price)}

theorem nil : Relayed sent [] :=
  ⟨sent, [], [], (List.append_nil sent).symm, List.nil_suffix, rfl⟩

/-- A page that hears what is sent holds it after the rest. -/
theorem append (relayed : Relayed sent frames) (more : List (Frame Price)) :
    Relayed (sent ++ more) (frames ++ more) := by
  obtain ⟨front, back, older, rfl, suffix, rfl⟩ := relayed
  exact ⟨front, back ++ more, older, List.append_assoc .., suffix, List.append_assoc ..⟩

/-- The last batches of what was sent. -/
theorem of_suffix {batches : List (WireBatch Price)} (suffix : batches <:+ batchesOf sent) :
    Relayed sent (batches.map .batch) :=
  ⟨sent, [], batches, (List.append_nil sent).symm, suffix, (List.append_nil _).symm⟩

/-- Without its oldest frames, a page still holds the last ones. -/
theorem of_append {front back : List (Frame Price)} (relayed : Relayed sent (front ++ back)) :
    Relayed sent back := by
  obtain ⟨before, after, older, rfl, suffix, whole⟩ := relayed
  rcases List.append_eq_append_iff.mp whole with ⟨between, isOlder, isBack⟩ | ⟨between, _, isAfter⟩
  · obtain ⟨first, second, rfl, _, rfl⟩ := List.map_eq_append_iff.mp isOlder
    exact ⟨before, after, second, rfl, (List.suffix_append _ _).trans suffix, isBack⟩
  · exact ⟨before ++ between, back, [], by rw [isAfter, List.append_assoc], List.nil_suffix, rfl⟩

/-- The batches that a page holds are the last ones sent. -/
theorem batches (relayed : Relayed sent frames) : batchesOf frames <:+ batchesOf sent := by
  obtain ⟨front, back, older, rfl, ⟨oldest, whole⟩, rfl⟩ := relayed
  refine ⟨oldest, ?_⟩
  rw [batchesOf_append, batchesOf_append, batchesOf_map, ← whole, List.append_assoc]

end Relayed

/-! ### The invariant -/

/-- A log that forgets its oldest entry when it has more than a number of them holds the last
entries, as many as that number. -/
theorem push_bounded {Entry : Type} (bound : Nat) (entries : List Entry) (entry : Entry) :
    (let pushed := entries.drop (entries.length - bound) ++ [entry]
      if pushed.length > bound then pushed.drop 1 else pushed) =
        (entries ++ [entry]).drop ((entries ++ [entry]).length - bound) := by
  simp only [List.length_append, List.length_drop, List.length_singleton]
  split_ifs with long
  · rcases Nat.eq_zero_or_pos bound with rfl | positive
    · simp
    · rw [List.drop_append_of_le_length (by rw [List.length_drop]; omega), List.drop_drop,
        List.drop_append_of_le_length (by omega)]
      congr 2
      omega
  · rw [List.drop_append_of_le_length (by omega)]
    congr 2
    omega

/-- The last batches, as many as the gateway remembers. -/
def lastBatches (batches : List (WireBatch Price)) : List (WireBatch Price) :=
  batches.drop (batches.length - historyMax)

theorem remember_lastBatches (batches : List (WireBatch Price)) (batch : WireBatch Price) :
    Server.remember (lastBatches batches) batch = lastBatches (batches ++ [batch]) :=
  push_bounded historyMax batches batch

/-- The gateway remembers its last batches, and a live page holds the last frames sent. -/
structure RelayInvariant (world : World Price) (sent : List (Frame Price)) : Prop where
  history : world.server.history = lastBatches (batchesOf sent)
  held : world.browser.feed.source = .live → Relayed sent world.browser.sinceLive

namespace RelayInvariant

variable {world target : World Price} {sent : List (Frame Price)}

/-- A quiet handler sends no frames. -/
theorem quiet (invariant : RelayInvariant world sent) (greeted : world.browser.Greeted)
    {outcome : Server Price × List (Message Price)} (quiet : world.server.Quiet outcome)
    (server : target.server = outcome.1)
    (page : target.browser = world.browser.hearAll outcome.2) : RelayInvariant target sent := by
  refine ⟨?_, fun live => ?_⟩
  · rw [server, quiet.history]
    exact invariant.history
  · rw [page] at live ⊢
    exact greeted.hearAll_sinceLive quiet.broadcast quiet.frames (Relayed sent) .nil
      invariant.held live

section Steps

variable [Zero Price] [DecidableEq Price]

theorem step (invariant : RelayInvariant world sent) (greeted : world.browser.Greeted)
    {label : WorldLabel Price} (step : (worldSystem Price).step world label target) :
    RelayInvariant target (sent ++ world.sends label) := by
  -- A handler that sends no frames.
  have silent : ∀ {outcome : Server Price × List (Message Price)}, world.server.Quiet outcome →
      world.broadcasts label = outcome.2 → target.server = outcome.1 →
      target.browser = world.browser.hearAll outcome.2 →
      RelayInvariant target (sent ++ world.sends label) := by
    intro outcome quiet broadcasts server page
    have nothing : world.sends label = [] := by
      rw [World.sends, broadcasts]
      exact List.flatMap_eq_nil_iff.mpr quiet.frames
    rw [nothing, List.append_nil]
    exact invariant.quiet greeted quiet server page
  cases label with
  | deliver =>
    obtain ⟨batch, rest, first, rfl⟩ := step
    have sends : world.sends .deliver =
        [.batch (world.server.normalizer.normalize batch.decode world.dateNow).1] := by
      simp only [World.sends, World.broadcasts, first]
      rfl
    rw [sends]
    refine ⟨?_, fun live => ?_⟩
    · rw [batchesOf_append, show batchesOf [.batch _] = [_] from rfl, ← remember_lastBatches,
        ← invariant.history]
      rfl
    · exact greeted.session.hear_sinceLive (Relayed sent) _ .nil
        (fun frames held => held.append _) invariant.held live
  | flush =>
    obtain rfl := step
    cases pending : world.server.normalizer.pendingBook with
    | none =>
      have same := @Server.flush_none _ world.server world.dateNow pending
      rw [World.sends, World.broadcasts, same, List.flatMap_nil, List.append_nil]
      exact invariant
    | some book =>
      have flushed := @Server.flush_some _ world.server world.dateNow book pending
      rw [World.sends, World.broadcasts, flushed]
      refine ⟨?_, fun live => ?_⟩
      · rw [batchesOf_append, show batchesOf ([Message.book world.dateNow book].flatMap
          Message.frames) = [] from rfl, List.append_nil]
        exact invariant.history
      · exact greeted.session.hear_sinceLive (Relayed sent) _ .nil
          (fun frames held => held.append _) invariant.held live
  | connection =>
    obtain ⟨connecting, rfl⟩ := step
    change RelayInvariant _ (sent ++ [])
    rw [List.append_nil]
    refine ⟨invariant.history, greeted.session.sinceLive_onConnection connecting world.server .nil
      (.of_suffix ?_)⟩
    rw [invariant.history]
    exact List.drop_suffix _ _
  | page label =>
    obtain ⟨isLocal, browser, moved, rfl⟩ := step
    change RelayInvariant _ (sent ++ [])
    rw [List.append_nil]
    refine ⟨invariant.history, fun live => ?_⟩
    obtain ⟨was, sinceLive⟩ := (greeted.session.moves isLocal moved).2 live
    change Relayed sent browser.sinceLive
    rw [sinceLive]
    exact invariant.held was
  | advance clock =>
    obtain ⟨_, rfl⟩ := step
    exact silent world.server.quiet_nothing rfl rfl rfl
  | process batch =>
    obtain ⟨_, rfl⟩ := step
    exact silent world.server.quiet_nothing rfl rfl rfl
  | metadata =>
    obtain rfl := step
    exact silent world.server.onMetadata_quiet rfl rfl rfl
  | down =>
    obtain rfl := step
    exact silent world.server.down_quiet rfl rfl rfl
  | startRecording file =>
    obtain rfl := step
    exact silent (world.server.startRecording_quiet file) rfl rfl rfl
  | stopRecording =>
    obtain rfl := step
    exact silent world.server.stopRecording_quiet rfl rfl rfl
  | result reqId =>
    obtain rfl := step
    exact silent (world.server.result_quiet reqId) rfl rfl rfl

end Steps

end RelayInvariant

/-! ### What a live page misses -/

/-- A live feed shows what is broadcast after what it showed, and stays live. -/
theorem Feed.onMessage_broadcast {feed : Feed Price} (live : feed.source = .live)
    {message : Message Price} (broadcast : message.IsBroadcast) {received : List (Frame Price)}
    (kept : Kept received feed.frames) : (feed.onMessage message).1.source = .live ∧
      Kept (received ++ message.frames) (feed.onMessage message).1.frames := by
  have unchanged : Kept (received ++ []) feed.frames := by rwa [List.append_nil]
  cases message with
  | hello roster => exact absurd broadcast id
  | history batches => exact absurd broadcast id
  | status connected recording =>
    have same : (feed.onMessage (.status connected recording)).1 =
        { feed with recording := recording, exchangeUp := connected } := by
      simp only [Feed.onMessage]
      rw [if_neg fun switches => switches.2 live]
      split_ifs <;> rfl
    rw [same]
    exact ⟨live, unchanged⟩
  | batch wire =>
    simp only [Feed.onMessage, if_pos live]
    exact ⟨(Feed.push_source _ _).trans live, kept.push _⟩
  | book atTime shown =>
    simp only [Feed.onMessage, if_pos live]
    exact ⟨(Feed.push_source _ _).trans live, kept.push _⟩
  | result reqId => exact ⟨live, unchanged⟩

/-- A live page shows all that is broadcast after what it showed. -/
theorem Browser.Greeted.hearAll_kept {messages : List (Message Price)} {browser : Browser Price}
    (greeted : browser.Greeted) (broadcast : ∀ message ∈ messages, message.IsBroadcast)
    (live : browser.feed.source = .live) {received : List (Frame Price)}
    (kept : Kept received browser.feed.frames) :
    Kept (received ++ messages.flatMap Message.frames) (browser.hearAll messages).feed.frames := by
  induction messages generalizing browser received with
  | nil => rwa [List.flatMap_nil, List.append_nil]
  | cons message rest inductionHypothesis =>
    obtain ⟨heard, isOpen⟩ := greeted.session.isOpen live
    have hears : browser.hear message = browser.receive heard message := by
      rw [Browser.hear, isOpen]
    have first := broadcast message List.mem_cons_self
    obtain ⟨stays, follows⟩ := Feed.onMessage_broadcast live first kept
    rw [List.flatMap_cons, ← List.append_assoc]
    refine inductionHypothesis (greeted.hear first)
      (fun other member => broadcast other (List.mem_cons_of_mem _ member)) ?_ ?_
    · rw [hears]
      exact stays
    · rw [hears]
      exact follows

/-- What follows what follows follows. -/
theorem Kept.trans {received shown more last : List (Frame Price)} (kept : Kept received shown)
    (later : Kept (shown ++ more) last) : Kept (received ++ more) last := by
  obtain ⟨trimmed, rfl, bound⟩ := kept
  obtain ⟨alsoTrimmed, whole, alsoBound⟩ := later
  refine ⟨trimmed ++ alsoTrimmed, by rw [List.append_assoc, whole, List.append_assoc], ?_⟩
  rcases alsoBound with rfl | long
  · rcases bound with rfl | enough
    · exact .inl rfl
    · refine .inr (enough.trans_le ?_)
      rw [List.nil_append] at whole
      rw [← whole, List.length_append]
      exact Nat.le_add_right _ _
  · exact .inr long

section Results

variable [Zero Price] [DecidableEq Price] {front back : List (WorldLabel Price)}
  {labels : List (WorldLabel Price)} {source world : World Price} {sent before : List (Frame Price)}

omit [Zero Price] [DecidableEq Price] in
/-- In its own steps a page that is live and stays so keeps its frames. -/
theorem Session.moves_frames {browser target : Browser Price} (session : Session browser)
    {label : BrowserLabel Price} (isLocal : label.IsLocal)
    (step : (browserSystem Price).step browser label target)
    (was : browser.feed.source = .live) (live : target.feed.source = .live) :
    target.feed.frames = browser.feed.frames := by
  have notClosed : browser.socket ≠ .closed := by
    obtain ⟨received, isOpen⟩ := session.isOpen was
    simp [isOpen]
  cases label with
  | start reachable constructed =>
    obtain ⟨notStarted, rfl⟩ := step
    exact absurd (session.idle (.inl notStarted)) notClosed
  | startTimer =>
    obtain ⟨_, rfl⟩ := step
    rfl
  | retry constructed =>
    obtain ⟨timer, rfl⟩ := step
    exact absurd (session.idle (.inr timer)) notClosed
  | opened => exact absurd isLocal id
  | closed =>
    obtain ⟨_, rfl⟩ := step
    exact absurd live (Feed.onClose_source _)
  | message message => exact absurd isLocal id
  | downloaded download now =>
    obtain ⟨_, rfl⟩ := step
    exact (afterDownload_good now (afterDownload_live live).2 was).2
  | control control =>
    obtain rfl := step
    exact (browser.perform_keeps control).1

/-- In a step from a live page to a live page, the page shows all that is sent. -/
theorem World.kept_step (greeted : source.browser.Greeted) {label : WorldLabel Price}
    (step : (worldSystem Price).step source label world)
    (was : source.browser.feed.source = .live) (live : world.browser.feed.source = .live)
    {received : List (Frame Price)} (kept : Kept received source.browser.feed.frames) :
    Kept (received ++ source.sends label) world.browser.feed.frames := by
  have hears : (∀ message ∈ source.broadcasts label, message.IsBroadcast) →
      world.browser = source.browser.hearAll (source.broadcasts label) →
      Kept (received ++ source.sends label) world.browser.feed.frames := by
    intro broadcast page
    rw [page]
    exact greeted.hearAll_kept broadcast was kept
  have nothing : ∀ message ∈ ([] : List (Message Price)), message.IsBroadcast :=
    fun _ member => absurd member List.not_mem_nil
  cases label with
  | deliver =>
    obtain ⟨batch, rest, first, rfl⟩ := step
    refine hears ?_ ?_
    · simp only [World.broadcasts, first]
      exact Message.broadcast_one trivial
    · simp only [World.broadcasts, first]
      rfl
  | flush =>
    obtain rfl := step
    refine hears ?_ rfl
    simp only [World.broadcasts, Server.flush]
    split
    · exact Message.broadcast_one trivial
    · exact nothing
  | connection =>
    obtain ⟨connecting, rfl⟩ := step
    obtain ⟨heard, isOpen⟩ := greeted.session.isOpen was
    rw [connecting] at isOpen
    cases isOpen
  | page label =>
    obtain ⟨isLocal, browser, moved, rfl⟩ := step
    change Kept (received ++ []) _
    rw [List.append_nil, greeted.session.moves_frames isLocal moved was live]
    exact kept
  | advance clock =>
    obtain ⟨_, rfl⟩ := step
    exact hears nothing rfl
  | process batch =>
    obtain ⟨_, rfl⟩ := step
    exact hears nothing rfl
  | metadata =>
    obtain rfl := step
    exact hears source.server.onMetadata_quiet.broadcast rfl
  | down =>
    obtain rfl := step
    exact hears source.server.down_quiet.broadcast rfl
  | startRecording file =>
    obtain rfl := step
    exact hears (source.server.startRecording_quiet file).broadcast rfl
  | stopRecording =>
    obtain rfl := step
    exact hears source.server.stopRecording_quiet.broadcast rfl
  | result reqId =>
    obtain rfl := step
    exact hears (source.server.result_quiet reqId).broadcast rfl

theorem relayRun_invariant (run : Run (relaySystem Price) labels (world, sent)) :
    RelayInvariant world sent := by
  refine run.invariant (fun _ pair => RelayInvariant pair.1 pair.2) ?_ ?_
  · rintro ⟨world, sent⟩ ⟨rfl, rfl⟩
    refine ⟨?_, fun live => by cases live⟩
    rw [batchesOf, List.filterMap_nil, lastBatches, List.drop_nil]
    rfl
  · rintro labels ⟨world, sent⟩ label ⟨target, after⟩ prior invariant ⟨step, rfl⟩
    exact invariant.step (worldRun_greeted prior.of_withHistory) step

/-- The page is live before every step. -/
def PageLive (pair : World Price × List (Frame Price)) (_ : WorldLabel Price) : Prop :=
  pair.1.browser.feed.source = .live

/-- While a page stays live, it shows all that is sent. -/
theorem live_page_kept {first last : World Price × List (Frame Price)}
    (run : Run (relaySystem Price) front first)
    (steps : Steps ((relaySystem Price).restrict PageLive) first back last)
    (live : last.1.browser.feed.source = .live) :
    ∃ since, last.2 = first.2 ++ since ∧
      Kept (first.1.browser.feed.frames ++ since) last.1.browser.feed.frames := by
  induction steps generalizing front with
  | nil state =>
    exact ⟨[], (List.append_nil _).symm, [], List.append_nil _, .inl rfl⟩
  | @cons first second last label labels step steps inductionHypothesis =>
    obtain ⟨was, taken⟩ := id step
    have stays : second.1.browser.feed.source = .live := by
      cases steps with
      | nil => exact live
      | cons next _ => exact next.1
    have greeted := worldRun_greeted run.of_withHistory
    obtain ⟨since, isSent, kept⟩ := inductionHypothesis (run.next taken) live
    have now := World.kept_step greeted taken.1 was stays
      (⟨[], rfl, .inl rfl⟩ : Kept first.1.browser.feed.frames first.1.browser.feed.frames)
    refine ⟨first.1.sends label ++ since, ?_, ?_⟩
    · rw [isSent, taken.2, List.append_assoc]
    · rw [← List.append_assoc]
      exact now.trans kept

/-- The frames of a live page are the last ones that the gateway has sent: some last batches of
what it sent before a moment, and everything it has sent after it. And while the page stays live,
it shows everything that is sent, each frame once and in order; only when there are too many are
the oldest left out. -/
theorem live_page_follows (run : Run (relaySystem Price) front (source, before))
    (steps : Steps ((relaySystem Price).restrict PageLive) (source, before) back (world, sent))
    (live : world.browser.feed.source = .live) :
    Relayed sent world.browser.feed.frames ∧
      batchesOf world.browser.feed.frames <:+ batchesOf sent ∧
      ∃ since, sent = before ++ since ∧
        Kept (source.browser.feed.frames ++ since) world.browser.feed.frames := by
  have whole := run.append steps.of_restrict
  obtain ⟨trimmed, held, _⟩ := (worldRun_greeted whole.of_withHistory).session.kept live
  have relayed := (relayRun_invariant whole).held live
  rw [held] at relayed
  exact ⟨relayed.of_append, relayed.of_append.batches, live_page_kept run steps live⟩

end Results

namespace Sample

/-- The world in which a batch is on its way to a page that was greeted before. -/
def awaited : World ℚ := made (greeted listening) firstBid

theorem awaited_run : ∃ labels sent, Run (relaySystem ℚ) labels (awaited, sent) := by
  have free : ∀ (world : World ℚ) (label : WorldLabel ℚ), label ≠ .flush → True :=
    fun _ _ _ => trivial
  have connected : Run ((worldSystem ℚ).restrict fun _ _ => True)
      (untilListening ++ [WorldLabel.connection]) (greeted listening) :=
    (listening_run free).next ⟨trivial, rfl, rfl⟩
  have run := (made_run free connected firstBid (by decide)).of_restrict
  obtain ⟨sent, recorded⟩ := run.withHistory [] fun sent world label => sent ++ world.sends label
  exact ⟨_, sent, recorded⟩

end Sample

theorem live_page_follows_sample : ∃ labels sent since,
    Run (relaySystem ℚ) labels (Sample.awaited, sent) ∧
      Kept (Sample.awaited.browser.feed.frames ++ since)
        (Sample.arrived Sample.awaited).browser.feed.frames := by
  obtain ⟨labels, sent, run⟩ := Sample.awaited_run
  have step : ((relaySystem ℚ).restrict PageLive).step (Sample.awaited, sent) .deliver
      (Sample.arrived Sample.awaited, sent ++ Sample.awaited.sends .deliver) :=
    ⟨by show Sample.awaited.browser.feed.source = .live; decide +kernel, ⟨_, [], rfl, rfl⟩, rfl⟩
  obtain ⟨_, _, since, _, kept⟩ := live_page_follows run (.single step) (by decide +kernel)
  exact ⟨labels, sent, since, run, kept⟩

end MarketSandbox
