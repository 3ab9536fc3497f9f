/-
This file models the views that are derived from a feed's frames, and says
which frame a view shows: the last one not after the time shown, and the book
of the last frame that carries one.
-/

import MarketSandbox.Web.Feed

namespace MarketSandbox

variable {Price : Type}

/-! ### The book shown -/

/-- The loop of `bookAt`, over the frames before a position. -/
def bookBefore (frames : List (Frame Price)) : Nat → Option (WireBook Price)
  | 0 => none
  | position + 1 =>
    match frames[position]? with
    | some (.book _ shown) => some shown
    | some (.batch wire) => wire.book.or (bookBefore frames position)
    | none => none

/-- `bookAt`. -/
def bookAt (frames : List (Frame Price)) (idx : Int) : Option (WireBook Price) :=
  bookBefore frames (min idx (frames.length - 1) + 1).toNat

/-- The book of the newest frame that carries one. -/
def newestBook (frames : List (Frame Price)) : Option (WireBook Price) :=
  (frames.filterMap Frame.book?).getLast?

theorem newestBook_concat (frames : List (Frame Price)) (frame : Frame Price) :
    newestBook (frames ++ [frame]) = frame.book?.or (newestBook frames) := by
  unfold newestBook
  rw [List.filterMap_append]
  cases carried : frame.book? with
  | none => simp [carried]
  | some book => simp [carried]

theorem bookBefore_eq (frames : List (Frame Price)) (count : Nat) (bound : count ≤ frames.length) :
    bookBefore frames count = newestBook (frames.take count) := by
  induction count with
  | zero => rfl
  | succ position inductionHypothesis =>
    have inside : position < frames.length := bound
    rw [bookBefore, List.take_add_one, List.getElem?_eq_getElem inside, Option.toList_some,
      newestBook_concat, ← inductionHypothesis inside.le]
    cases frames[position] <;> rfl

/-- Over all frames, `bookAt` shows the newest book. -/
theorem bookAt_last (frames : List (Frame Price)) :
    bookAt frames (frames.length - 1) = newestBook frames := by
  have count : (min ((frames.length : Int) - 1) (frames.length - 1) + 1).toNat = frames.length := by
    omega
  rw [bookAt, count, bookBefore_eq frames _ le_rfl, List.take_length]

/-! ### The frame shown -/

/-- Frames are sorted by time. -/
def Sorted (frames : List (Frame Price)) : Prop :=
  frames.Pairwise fun frame later => frame.atTime ≤ later.atTime

instance (frames : List (Frame Price)) : Decidable (Sorted frames) :=
  inferInstanceAs (Decidable (List.Pairwise _ _))

theorem Sorted.sublist {some all : List (Frame Price)} (sorted : Sorted all)
    (sublist : some.Sublist all) : Sorted some :=
  List.Pairwise.sublist sublist sorted

theorem Sorted.getElem_le {frames : List (Frame Price)} (sorted : Sorted frames)
    {position later : Nat} (before : position ≤ later) (inside : later < frames.length) :
    (frames.get ⟨position, before.trans_lt inside⟩).atTime ≤ frames[later].atTime := by
  rcases before.lt_or_eq with less | rfl
  · exact List.pairwise_iff_getElem.mp sorted position later (by omega) inside less
  · exact le_rfl

namespace Feed

/-- An index is the last one whose frame is not after a time, or `-1` when there is none. -/
structure IsLastAt (feed : Feed Price) (vt : ℚ) (index : Int) : Prop where
  lower : -1 ≤ index
  upper : index < feed.frames.length
  reached : ∀ (position : Nat) (inside : position < feed.frames.length),
    Reached vt feed.frames[position] ↔ (position : Int) ≤ index

/-- Over sorted frames, `indexAt` finds the last frame not after a time. -/
theorem indexAt_spec {feed : Feed Price} (sorted : Sorted feed.frames) (vt : ℚ) :
    feed.IsLastAt vt (feed.indexAt vt) := by
  let test : Int → Bool := fun mid =>
    feed.frames[mid.toNat]?.any fun frame => decide (Reached vt frame)
  have tested : ∀ (position : Nat) (inside : position < feed.frames.length),
      test position = true ↔ Reached vt feed.frames[position] := by
    intro position inside
    simp only [test, Int.toNat_natCast, List.getElem?_eq_getElem inside, Option.any_some,
      decide_eq_true_iff]
  have closed : ∀ position later : Int, 0 ≤ position → position ≤ later →
      later < feed.frames.length → test later → test position := by
    intro position later nonneg before inside passes
    lift later to Nat using by omega
    lift position to Nat using nonneg
    rw [tested later (by omega)] at passes
    rw [tested position (by omega)]
    refine le_trans ?_ passes
    exact_mod_cast sorted.getElem_le (by omega) (by omega)
  obtain ⟨lower, upper, found⟩ := Bisect.last_spec (Int.natCast_nonneg _) closed
  refine ⟨lower, upper, fun position inside => ?_⟩
  rw [← tested position inside]
  exact found position (by omega) (by omega)

/-- Over sorted frames, the index at `lastAt` is the last one. -/
theorem indexAt_lastAt {feed : Feed Price} (sorted : Sorted feed.frames) :
    feed.indexAt feed.lastAt = feed.frames.length - 1 := by
  obtain ⟨lower, upper, found⟩ := indexAt_spec sorted feed.lastAt
  rcases Nat.eq_zero_or_pos feed.frames.length with empty | positive
  · omega
  · have inside : feed.frames.length - 1 < feed.frames.length := by omega
    have last : Reached feed.lastAt feed.frames[feed.frames.length - 1] := by
      unfold Reached lastAt
      rw [List.getLast?_eq_getElem?, List.getElem?_eq_getElem inside]
      exact le_rfl
    have reached := (found _ inside).mp last
    omega

end Feed

end MarketSandbox
