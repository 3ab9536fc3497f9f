/-
This file follows the frames that `takeNew` returns while a live feed plays. A
tick whose time overtakes the last frame makes the feed follow, and then drops
the frames that have not been returned yet. In a run in which no tick overtakes
such frames, and which starts with nothing left over from a step, every frame is
returned once and in order, and no later than its time.
-/

import MarketSandbox.Library.Transition
import MarketSandbox.Web.Derive

namespace MarketSandbox

open Transition

variable {Price : Type}

/-! ### The calls of playback -/

/-- A feed with what `takeNew` has returned. -/
structure Playback (Price : Type) where
  feed : Feed Price
  returned : List (Frame Price)

/-- A call of playback. -/
inductive PlaybackLabel (Price : Type)
  | push (frames : List (Frame Price))
  | tick (now : ℚ)
  | takeNew

/-- Playback from a feed: frames are pushed in order of time and are not trimmed. -/
def playbackSystem (start : Feed Price) : System (Playback Price) (PlaybackLabel Price) where
  initial playback := playback = ⟨start, []⟩
  step source label target :=
    match label with
    | .push frames =>
      Sorted (source.feed.frames ++ frames) ∧
        (source.feed.frames ++ frames).length ≤ maxFrames + trim ∧
        target = { source with feed := source.feed.push frames }
    | .tick now => target = { source with feed := source.feed.tick now }
    | .takeNew =>
      target = ⟨source.feed.takeNew.1, source.returned ++ source.feed.takeNew.2⟩

namespace Feed

/-- The time that a tick shows while the feed plays. -/
def playTime (feed : Feed Price) (now : ℚ) : ℚ :=
  feed.anchor.vt + (now - feed.anchor.wall) * feed.speed

/-- A tick catches up with the last frame of a live feed. -/
def CatchesUp (feed : Feed Price) (now : ℚ) : Prop :=
  feed.clockMode = .play ∧ feed.source = .live ∧ feed.lastAt ≤ feed.playTime now

end Feed

/-- A tick that catches up finds every frame returned, and `takeNew` finds nothing left over from a
step. -/
def KeepsUp (playback : Playback Price) : PlaybackLabel Price → Prop
  | .push _ => True
  | .tick now => playback.feed.CatchesUp now → playback.feed.cursor = playback.feed.frames.length
  | .takeNew => playback.feed.forced = []

/-- A draw of the page: a tick, and then `takeNew`. -/
def Playback.draw (playback : Playback Price) (now : ℚ) : Playback Price :=
  ⟨(playback.feed.tick now).takeNew.1, playback.returned ++ (playback.feed.tick now).takeNew.2⟩

/-- Every frame from the start on that is not after the time shown has been returned. -/
def Playback.Complete (start : Feed Price) (playback : Playback Price) : Prop :=
  ∀ frame ∈ playback.feed.frames.drop (start.cursor + playback.returned.length),
    playback.feed.vt < frame.atTime

/-! ### One call -/

namespace Feed

/-- Without trimming, a push adds the frames at the end. -/
theorem push_of_room {feed : Feed Price} {frames : List (Frame Price)}
    (room : (feed.frames ++ frames).length ≤ maxFrames + trim) :
    feed.push frames = { feed with frames := feed.frames ++ frames } := by
  unfold push
  exact if_neg (not_lt.mpr room)

/-- What a tick does to a live feed that plays or follows. -/
theorem tick_live {feed : Feed Price} (live : feed.source = .live)
    (playing : feed.clockMode ≠ .pause) (now : ℚ) :
    (feed.clockMode = .follow ∧ feed.tick now = { feed with vt := feed.lastAt }) ∨
      (feed.CatchesUp now ∧
        feed.tick now = { feed with vt := feed.playTime now }.setFollow) ∨
      (feed.clockMode = .play ∧ ¬ feed.CatchesUp now ∧
        feed.tick now = { feed with vt := feed.playTime now }) := by
  unfold tick
  cases mode : feed.clockMode with
  | follow => exact Or.inl ⟨rfl, rfl⟩
  | pause => exact absurd mode playing
  | play =>
    right
    have notReplay : ¬ (feed.source = .replay ∧ feed.frames ≠ [] ∧
        feed.playTime now > feed.lastAt + 1500) := by
      rw [live]
      exact fun replays => nomatch replays.1
    by_cases catches : (feed.lastAt : ℚ) ≤ feed.playTime now
    · left
      exact ⟨⟨mode, live, catches⟩, (if_neg notReplay).trans (if_pos ⟨live, catches⟩)⟩
    · right
      refine ⟨rfl, fun other => catches other.2.2, ?_⟩
      exact (if_neg notReplay).trans (if_neg fun other => catches other.2)

/-- A tick leaves alone what is left over from a step. -/
theorem tick_forced (feed : Feed Price) (now : ℚ) : (feed.tick now).forced = feed.forced := by
  unfold tick
  split
  · rfl
  · simp only
    split_ifs <;> rfl
  · rfl

/-- `takeNew` finds frames that follow one another from the cursor on. -/
theorem unread_prefix (feed : Feed Price) : feed.unread <+: feed.frames.drop feed.cursor := by
  unfold unread
  split
  · exact List.nil_prefix
  · exact List.prefix_rfl
  · exact List.takeWhile_prefix _

/-- Sorted frames from the first one after a time on are after it. -/
theorem lt_of_mem_drop_takeWhile {frames : List (Frame Price)} (sorted : Sorted frames) (vt : ℚ) :
    ∀ frame ∈ frames.drop (frames.takeWhile fun frame => decide (Reached vt frame)).length,
      vt < frame.atTime := by
  induction frames with
  | nil => exact fun frame member => absurd member List.not_mem_nil
  | cons first rest inductionHypothesis =>
    obtain ⟨before, sortedRest⟩ := List.pairwise_cons.mp sorted
    by_cases reached : Reached vt first
    · simp only [List.takeWhile_cons, decide_eq_true reached, if_true, List.length_cons,
        List.drop_succ_cons]
      exact inductionHypothesis sortedRest
    · simp only [List.takeWhile_cons, decide_eq_false reached, Bool.false_eq_true, if_false,
        List.length_nil, List.drop_zero]
      have after : vt < first.atTime := not_le.mp reached
      intro frame member
      rcases List.mem_cons.mp member with rfl | member
      · exact after
      · exact after.trans_le (by exact_mod_cast before frame member)

/-- No frame of sorted frames is after `lastAt`. -/
theorem le_lastAt {feed : Feed Price} (sorted : Sorted feed.frames) {position : Nat}
    (inside : position < feed.frames.length) : feed.frames[position].atTime ≤ feed.lastAt := by
  have reached := ((indexAt_spec sorted feed.lastAt).reached position inside).mpr (by
    rw [indexAt_lastAt sorted]
    omega)
  exact Rat.intCast_le_intCast.mp reached

/-- What `takeNew` leaves unread is after the time shown. -/
theorem unread_complete {feed : Feed Price} (sorted : Sorted feed.frames)
    (playing : feed.clockMode ≠ .pause) :
    ∀ frame ∈ feed.frames.drop (feed.cursor + feed.unread.length), feed.vt < frame.atTime := by
  rw [← List.drop_drop]
  unfold unread
  cases mode : feed.clockMode with
  | pause => exact absurd mode playing
  | follow =>
    simp only [List.drop_length]
    exact fun frame member => absurd member List.not_mem_nil
  | play => exact lt_of_mem_drop_takeWhile (sorted.sublist (List.drop_sublist _ _)) feed.vt

end Feed

/-! ### Runs -/

/-- A live feed in playback has returned, in order, the frames up to its cursor. -/
structure Delivered (start : Feed Price) (playback : Playback Price) : Prop where
  live : playback.feed.source = .live
  playing : playback.feed.clockMode ≠ .pause
  sorted : Sorted playback.feed.frames
  counted : start.cursor + playback.returned.length = playback.feed.cursor
  inOrder : playback.returned <+: playback.feed.frames.drop start.cursor

namespace Delivered

variable {start : Feed Price} {source target : Playback Price}

theorem push (delivered : Delivered start source) {frames : List (Frame Price)}
    (sorted : Sorted (source.feed.frames ++ frames))
    (room : (source.feed.frames ++ frames).length ≤ maxFrames + trim) :
    Delivered start { source with feed := source.feed.push frames } := by
  rw [Feed.push_of_room room]
  refine ⟨delivered.live, delivered.playing, sorted, delivered.counted, ?_⟩
  rw [List.drop_append]
  exact delivered.inOrder.trans (List.prefix_append _ _)

theorem tick (delivered : Delivered start source) {now : ℚ}
    (keepsUp : KeepsUp source (.tick now)) :
    Delivered start { source with feed := source.feed.tick now } := by
  rcases Feed.tick_live delivered.live delivered.playing now with
    ⟨_, moved⟩ | ⟨catches, moved⟩ | ⟨_, _, moved⟩
  · rw [moved]
    exact ⟨delivered.live, delivered.playing, delivered.sorted, delivered.counted,
      delivered.inOrder⟩
  · rw [moved]
    exact ⟨delivered.live, nofun, delivered.sorted, delivered.counted.trans (keepsUp catches),
      delivered.inOrder⟩
  · rw [moved]
    exact ⟨delivered.live, delivered.playing, delivered.sorted, delivered.counted,
      delivered.inOrder⟩

theorem takeNew (delivered : Delivered start source) (keepsUp : KeepsUp source .takeNew) :
    Delivered start ⟨source.feed.takeNew.1, source.returned ++ source.feed.takeNew.2⟩ := by
  have unforced : source.feed.takeNew.2 = source.feed.unread := by
    rw [Feed.takeNew, show source.feed.forced = [] from keepsUp, List.nil_append]
  rw [unforced]
  refine ⟨delivered.live, delivered.playing, delivered.sorted, ?_, ?_⟩
  · rw [List.length_append, ← Nat.add_assoc, delivered.counted]
    rfl
  · obtain ⟨rest, whole⟩ := delivered.inOrder
    obtain ⟨later, unread⟩ := source.feed.unread_prefix
    refine ⟨later, ?_⟩
    have remaining : rest = source.feed.frames.drop source.feed.cursor := by
      rw [← delivered.counted, ← List.drop_drop, ← whole, List.drop_left]
    rw [List.append_assoc, unread, ← remaining]
    exact whole

theorem step (delivered : Delivered start source) {label : PlaybackLabel Price}
    (keepsUp : KeepsUp source label) (step : (playbackSystem start).step source label target) :
    Delivered start target := by
  cases label with
  | push frames =>
    obtain ⟨sorted, room, rfl⟩ := step
    exact delivered.push sorted room
  | tick now =>
    obtain rfl := step
    exact delivered.tick keepsUp
  | takeNew =>
    obtain rfl := step
    exact delivered.takeNew keepsUp

/-- After `takeNew`, every frame that is not after the time shown has been returned. -/
theorem complete_takeNew (delivered : Delivered start source)
    (keepsUp : KeepsUp source .takeNew) :
    Playback.Complete start
      ⟨source.feed.takeNew.1, source.returned ++ source.feed.takeNew.2⟩ := by
  unfold Playback.Complete
  rw [(delivered.takeNew keepsUp).counted]
  exact Feed.unread_complete delivered.sorted delivered.playing

/-- A draw returns everything up to its time exactly when its tick leaves nothing behind. -/
theorem complete_draw_iff (delivered : Delivered start source)
    (unforced : source.feed.forced = []) (inside : source.feed.cursor ≤ source.feed.frames.length)
    (now : ℚ) : (source.draw now).Complete start ↔ KeepsUp source (.tick now) := by
  constructor
  · intro complete catches
    by_contra behind
    have moved : source.feed.tick now =
        { source.feed with vt := source.feed.playTime now }.setFollow := by
      rcases Feed.tick_live delivered.live delivered.playing now with
        ⟨follows, _⟩ | ⟨_, moved⟩ | ⟨_, away, _⟩
      · exact absurd (catches.1.symm.trans follows) nofun
      · exact moved
      · exact absurd catches away
    have drawn : source.draw now =
        ⟨{ source.feed with vt := source.feed.playTime now }.setFollow, source.returned⟩ := by
      rw [Playback.draw, moved]
      simp [Feed.takeNew, Feed.unread, Feed.setFollow, unforced]
    have left : source.feed.cursor < source.feed.frames.length := lt_of_le_of_ne inside behind
    rw [drawn, Playback.Complete, delivered.counted] at complete
    have member : source.feed.frames[source.feed.cursor] ∈
        source.feed.frames.drop source.feed.cursor := by
      rw [List.drop_eq_getElem_cons left]
      exact List.mem_cons_self
    exact absurd (complete _ member)
      (not_lt.mpr (Rat.intCast_le_intCast.mpr (Feed.le_lastAt delivered.sorted left)))
  · intro keepsUp
    exact (delivered.tick keepsUp).complete_takeNew ((source.feed.tick_forced now).trans unforced)

end Delivered

section Runs

variable {start : Feed Price} {labels : List (PlaybackLabel Price)} {last : Playback Price}

theorem delivered_run (live : start.source = .live) (playing : start.clockMode ≠ .pause)
    (sorted : Sorted start.frames)
    (run : Run ((playbackSystem start).restrict KeepsUp) labels last) : Delivered start last := by
  refine Run.invariant (fun _ => Delivered start) ?_ ?_ run
  · rintro initial rfl
    exact ⟨live, playing, sorted, Nat.add_zero _, List.nil_prefix⟩
  · exact fun _ _ _ _ _ delivered step => delivered.step step.1 step.2

/-- In a run whose calls keep up, the frames returned are a prefix of those from the cursor on, and
each `takeNew` returns all that are not after the time shown. -/
theorem playback_delivers (live : start.source = .live) (playing : start.clockMode ≠ .pause)
    (sorted : Sorted start.frames)
    (run : Run ((playbackSystem start).restrict KeepsUp) labels last) :
    last.returned <+: last.feed.frames.drop start.cursor ∧
      (labels.getLast? = some .takeNew → Playback.Complete start last) := by
  refine ⟨(delivered_run live playing sorted run).inOrder, fun taken => ?_⟩
  obtain ⟨earlier, rfl⟩ := List.getLast?_eq_some_iff.mp taken
  obtain ⟨source, before, keepsUp, rfl⟩ := run.last
  exact (delivered_run live playing sorted before).complete_takeNew keepsUp

end Runs

namespace Sample

/-- A frame with an empty book. -/
def emptyBook (atTime : Int) : Frame Int := .book atTime ⟨[], []⟩

/-- A live feed that plays from the start and has one frame, at 10. -/
def behindLive : Feed Int :=
  { Feed.initial with frames := [emptyBook 10], source := .live, clockMode := .play }

/-- Playback in which another frame has arrived, at 20. -/
def extended : Playback Int := ⟨behindLive.push [emptyBook 20], []⟩

theorem extended_run : Run ((playbackSystem behindLive).restrict KeepsUp)
    [.push [emptyBook 20]] extended := by
  have start : Run ((playbackSystem behindLive).restrict KeepsUp) [] ⟨behindLive, []⟩ := .start rfl
  exact start.next ⟨trivial, by decide, by decide, rfl⟩

end Sample

theorem playback_delivers_sample :
    (Sample.extended.draw 15).returned <+: (Sample.extended.draw 15).feed.frames.drop 0 ∧
      Playback.Complete Sample.behindLive (Sample.extended.draw 15) := by
  have ticked : Run ((playbackSystem Sample.behindLive).restrict KeepsUp)
      ([PlaybackLabel.push [Sample.emptyBook 20]] ++ [PlaybackLabel.tick 15])
      { Sample.extended with feed := Sample.extended.feed.tick 15 } :=
    Sample.extended_run.next
      ⟨fun catches => absurd catches.2.2 (by decide +kernel), rfl⟩
  have taken : Run ((playbackSystem Sample.behindLive).restrict KeepsUp)
      ([PlaybackLabel.push [Sample.emptyBook 20]] ++ [PlaybackLabel.tick 15] ++
        [PlaybackLabel.takeNew]) (Sample.extended.draw 15) :=
    ticked.next ⟨Sample.extended.feed.tick_forced 15, rfl⟩
  have delivers := playback_delivers rfl (by decide) (by decide) taken
  exact ⟨delivers.1, delivers.2 rfl⟩

/-- A tick that overtakes the one frame of a live feed leaves it out. -/
theorem overtaken_frame_is_lost :
    ¬ ∀ (start : Feed Int) (labels : List (PlaybackLabel Int)) (last : Playback Int),
      start.source = .live → start.clockMode ≠ .pause → Sorted start.frames → 0 < start.speed →
        start.forced = [] → Run (playbackSystem start) labels last →
          labels.getLast? = some .takeNew → Playback.Complete start last := by
  intro always
  have start : Run (playbackSystem Sample.behindLive) [] ⟨Sample.behindLive, []⟩ := .start rfl
  have ticked : Run (playbackSystem Sample.behindLive) ([] ++ [PlaybackLabel.tick 20])
      ⟨Sample.behindLive.tick 20, []⟩ := start.next rfl
  have taken : Run (playbackSystem Sample.behindLive)
      ([] ++ [PlaybackLabel.tick 20] ++ [PlaybackLabel.takeNew])
      (Playback.draw ⟨Sample.behindLive, []⟩ 20) := ticked.next rfl
  have complete := always _ _ _ rfl (by decide) (by decide) (by decide +kernel) rfl taken rfl
  have initial : Run ((playbackSystem Sample.behindLive).restrict KeepsUp) []
    ⟨Sample.behindLive, []⟩ := .start rfl
  have delivered := delivered_run rfl (by decide) (by decide) initial
  have keepsUp := (delivered.complete_draw_iff rfl (by decide) 20).mp complete
  exact absurd (keepsUp ⟨rfl, rfl, by decide +kernel⟩) (by decide)

end MarketSandbox
