/-
This file shows when a step shows one batch more. A feed keeps its position as a
cursor and as a time, and the views turn the time back into an index. After a
step the two agree exactly when the frame behind the batch it returns is later
than the batch.
-/

import MarketSandbox.Web.Browser
import MarketSandbox.Web.Derive

namespace MarketSandbox

open Transition

variable {Price : Type}

/-! ### Steps -/

/-- A control of the page, or frames that arrive. -/
inductive SteppingLabel (Price : Type)
  | push (frames : List (Frame Price))
  | seek (vt now : ℚ)
  | step

/-- A feed that is stepped; frames arrive in order of time. -/
def steppingSystem (start : Feed Price) : System (Feed Price) (SteppingLabel Price) where
  initial feed := feed = start
  step source label target :=
    match label with
    | .push frames => Sorted (source.frames ++ frames) ∧ target = source.push frames
    | .seek vt now => target = source.seek vt now
    | .step => target = source.step.1

namespace Feed

/-- The position of the first batch from the cursor on. -/
def nextBatch (feed : Feed Price) : Option Nat :=
  ((feed.frames.drop feed.cursor).findIdx? fun frame => frame.batch?.isSome).map (feed.cursor + ·)

/-- The frame behind the next batch, if there is one, is later than the batch. -/
def NextIsLater (feed : Feed Price) : Prop :=
  ∀ position, feed.nextBatch = some position → ∀ batch behind,
    feed.frames[position]? = some batch → feed.frames[position + 1]? = some behind →
      batch.atTime < behind.atTime

/-- A feed shows the frames up to the one before its cursor, which is a given frame. -/
def Shows (feed : Feed Price) (frame : Frame Price) : Prop :=
  feed.indexAt feed.vt + 1 = feed.cursor ∧
    feed.frames[(feed.indexAt feed.vt).toNat]? = some frame

/-- A step that returns a batch shows the frames up to it. -/
def StepShows (feed : Feed Price) : Prop :=
  ∀ frame, feed.step.2 = [frame] → feed.step.1.Shows frame

/-- A step that finds no batch returns none. -/
theorem stepOver_none {rest : List (Frame Price)}
    (none : rest.findIdx? (fun frame => frame.batch?.isSome) = none) (feed : Feed Price) :
    (stepOver rest feed).2 = [] := by
  induction rest generalizing feed with
  | nil => rfl
  | cons frame rest inductionHypothesis =>
    cases frame with
    | batch wire => simp [Frame.batch?, List.findIdx?_cons] at none
    | book atTime book =>
      refine inductionHypothesis ?_ _
      simpa [Frame.batch?, List.findIdx?_cons] using none

/-- A step that finds a batch moves the cursor behind it and the time to it. -/
theorem stepOver_some {rest : List (Frame Price)} {position : Nat}
    (found : rest.findIdx? (fun frame => frame.batch?.isSome) = some position)
    (feed : Feed Price) : ∃ batch, rest[position]? = some batch ∧
      stepOver rest feed =
        ({ feed with
            cursor := feed.cursor + position + 1
            vt := batch.atTime
            forced := feed.forced ++ [batch] }, [batch]) := by
  induction rest generalizing feed position with
  | nil => exact absurd found nofun
  | cons frame rest inductionHypothesis =>
    cases frame with
    | batch wire =>
      have first : 0 = position := by simpa [Frame.batch?, List.findIdx?_cons] using found
      subst first
      exact ⟨.batch wire, rfl, rfl⟩
    | book atTime book =>
      obtain ⟨earlier, foundLater, rfl⟩ : ∃ earlier,
          rest.findIdx? (fun frame => frame.batch?.isSome) = some earlier ∧
            earlier + 1 = position := by
        simpa [Frame.batch?, List.findIdx?_cons] using found
      obtain ⟨batch, here, stepped⟩ := inductionHypothesis foundLater
        { feed with cursor := feed.cursor + 1, vt := (Frame.book atTime book).atTime }
      refine ⟨batch, here, ?_⟩
      rw [stepOver, stepped]
      simp only [Nat.add_assoc, Nat.add_comm 1]

/-- A step without a next batch returns nothing. -/
theorem step_none {feed : Feed Price} (none : feed.nextBatch = none) : feed.step.2 = [] :=
  stepOver_none (Option.map_eq_none_iff.mp none) _

/-- A step returns the next batch, with the cursor behind it and the time at it. -/
theorem step_some {feed : Feed Price} {position : Nat} (next : feed.nextBatch = some position) :
    ∃ batch, feed.frames[position]? = some batch ∧
      feed.step =
        ({ feed with
            clockMode := .pause
            cursor := position + 1
            vt := batch.atTime
            forced := feed.forced ++ [batch] }, [batch]) := by
  obtain ⟨offset, found, rfl⟩ := Option.map_eq_some_iff.mp next
  obtain ⟨batch, here, stepped⟩ := stepOver_some found { feed with clockMode := .pause }
  rw [List.getElem?_drop] at here
  exact ⟨batch, here, stepped⟩

/-- Over sorted frames, the time of a frame leads back to it exactly when the next is later. -/
theorem shows_iff {feed : Feed Price} (sorted : Sorted feed.frames) {position : Nat}
    {frame : Frame Price} (here : feed.frames[position]? = some frame)
    (time : feed.vt = frame.atTime) (cursor : feed.cursor = position + 1) :
    feed.Shows frame ↔
      ∀ behind, feed.frames[position + 1]? = some behind → frame.atTime < behind.atTime := by
  obtain ⟨lower, upper, reached⟩ := indexAt_spec sorted feed.vt
  obtain ⟨inside, rfl⟩ := List.getElem?_eq_some_iff.mp here
  have before : (position : Int) ≤ feed.indexAt feed.vt :=
    (reached position inside).mp (le_of_eq time.symm)
  constructor
  · rintro ⟨same, _⟩ behind next
    obtain ⟨within, rfl⟩ := List.getElem?_eq_some_iff.mp next
    have beyond := mt (reached (position + 1) within).mp (by omega)
    rw [Reached, time, not_le] at beyond
    exact_mod_cast beyond
  · intro later
    have last : feed.indexAt feed.vt = position := by
      by_contra other
      have within : position + 1 < feed.frames.length := by omega
      have beyond := (reached (position + 1) within).mpr (by omega)
      rw [Reached, time] at beyond
      exact absurd (later _ (List.getElem?_eq_getElem within))
        (not_lt.mpr (Rat.intCast_le_intCast.mp beyond))
    refine ⟨?_, ?_⟩
    · rw [last, cursor]
      rfl
    · rw [last, Int.toNat_natCast]
      exact here

/-- A step over sorted frames shows the frames up to its batch exactly when the next frame is
later. -/
theorem stepShows_iff {feed : Feed Price} (sorted : Sorted feed.frames) :
    feed.StepShows ↔ feed.NextIsLater := by
  cases next : feed.nextBatch with
  | none =>
    refine ⟨fun _ position other => ?_, fun _ frame returned => ?_⟩
    · exact absurd (next.symm.trans other) nofun
    · rw [step_none next] at returned
      exact absurd returned nofun
  | some position =>
    obtain ⟨batch, here, stepped⟩ := step_some next
    have shown : feed.step.1.Shows batch ↔
        ∀ behind, feed.frames[position + 1]? = some behind → batch.atTime < behind.atTime := by
      have moved := @shows_iff Price feed.step.1 (by rwa [stepped]) position batch
        (by rwa [stepped]) (by rw [stepped]) (by rw [stepped])
      rwa [stepped] at moved ⊢
    constructor
    · intro shows other sameNext first behind atFirst atBehind
      obtain rfl := Option.some.inj (next.symm.trans sameNext)
      obtain rfl := Option.some.inj (here.symm.trans atFirst)
      exact shown.mp (shows batch (by rw [stepped])) behind atBehind
    · intro later frame returned
      rw [stepped] at returned
      obtain rfl := List.singleton_inj.mp returned
      exact shown.mpr fun behind atBehind => later position next batch behind here atBehind

theorem push_sorted {feed : Feed Price} {frames : List (Frame Price)}
    (sorted : Sorted (feed.frames ++ frames)) : Sorted (feed.push frames).frames := by
  simp only [push]
  split_ifs
  · exact sorted.sublist (List.drop_sublist _ _)
  · exact sorted

end Feed

/-! ### Runs -/

/-- The frames of a feed that is stepped stay sorted. -/
theorem stepping_sorted {start : Feed Price} (sorted : Sorted start.frames)
    {labels : List (SteppingLabel Price)} {feed : Feed Price}
    (run : Run (steppingSystem start) labels feed) : Sorted feed.frames := by
  refine Run.invariant (fun _ feed => Sorted feed.frames) ?_ ?_ run
  · rintro initial rfl
    exact sorted
  · intro labels source label target _ sortedSource step
    cases label with
    | push frames =>
      obtain ⟨sortedAll, rfl⟩ := step
      exact Feed.push_sorted sortedAll
    | seek vt now =>
      obtain rfl := step
      rw [Feed.seek, Feed.rewind_frames]
      exact sortedSource
    | step =>
      obtain rfl := step
      rw [Feed.step, (Feed.stepOver_keeps _ _).1]
      exact sortedSource

/-- Every feed from which a run takes a step has a property. -/
def BeforeSteps (start : Feed Price) (labels : List (SteppingLabel Price))
    (property : Feed Price → Prop) : Prop :=
  ∀ front back feed, labels = front ++ .step :: back → Run (steppingSystem start) front feed →
    property feed

/-- All steps of a run that return a batch show the frames up to it exactly when at each of them the
frame behind the next batch is later than the batch. -/
theorem stepping_shows_iff {start : Feed Price} (sorted : Sorted start.frames)
    (labels : List (SteppingLabel Price)) :
    BeforeSteps start labels Feed.StepShows ↔ BeforeSteps start labels Feed.NextIsLater := by
  constructor
  · intro shows front back feed split run
    exact (Feed.stepShows_iff (stepping_sorted sorted run)).mp (shows front back feed split run)
  · intro later front back feed split run
    exact (Feed.stepShows_iff (stepping_sorted sorted run)).mpr (later front back feed split run)

namespace Sample

/-- A batch without trades. -/
def quiet (atTime : Int) (id : String) : Frame Int := .batch
  { t := "batch"
    atTime := atTime
    seq := 1
    op := .submit
    order :=
      { id := id, node := "mm-1", side := some .bid, type := some .limit, price := 100, qty := 1,
        status := some .queued, filled := 0, avg := 0, reason := "", cancelOk := false }
    trace := ⟨0, 0, 0, 0, 0⟩
    trades := []
    tob := none
    book := none }

/-- A feed at the start of two batches that share a time. -/
def together : Feed Int := { Feed.initial with frames := [quiet 10 "ORD-1", quiet 10 "ORD-2"] }

end Sample

theorem stepping_shows_iff_sample :
    BeforeSteps Sample.together [.step] Feed.StepShows ↔
      BeforeSteps Sample.together [.step] Feed.NextIsLater :=
  stepping_shows_iff (by decide) [.step]

/-- A step shows two batches when they share a time. -/
theorem step_shows_two :
    ¬ ∀ (start : Feed Int) (labels : List (SteppingLabel Int)) (feed : Feed Int),
      Sorted start.frames → Run (steppingSystem start) labels feed → feed.StepShows := by
  intro always
  have shows := always Sample.together [] Sample.together (by decide) (.start rfl)
  have later := (@Feed.stepShows_iff Int Sample.together (by decide)).mp shows
  exact absurd (later 0 (by decide) _ _ rfl rfl) (by decide)

end MarketSandbox
