/-
This file develops the search for the last position at which a test holds, by
halving an interval of positions. The test must hold at a position whenever it
holds at a later one; the search then finds the position up to which it holds.
-/

import Mathlib.Order.Basic

namespace Bisect

/-- Halve the interval of the positions still in question; the answer is the last position
already known to pass. -/
def search (test : Int → Bool) (low high answer : Int) : Int :=
  if low ≤ high then
    let middle := (low + high) / 2
    if test middle then search test (middle + 1) high middle
    else search test low (middle - 1) answer
  else answer
termination_by (high + 1 - low).toNat

/-- Below the interval the test holds, and above it it fails. -/
structure Brackets (test : Int → Bool) (count low high answer : Int) : Prop where
  adjacent : answer + 1 = low
  nonneg : 0 ≤ low
  ordered : low ≤ high + 1
  bounded : high < count
  passed : ∀ position, 0 ≤ position → position < low → test position
  failed : ∀ position, high < position → position < count → ¬ test position

/-- The search answers with the position up to which the test holds. -/
theorem Brackets.search {test : Int → Bool} {count low high answer : Int}
    (closed : ∀ position later, 0 ≤ position → position ≤ later → later < count →
      test later → test position)
    (brackets : Brackets test count low high answer) :
    -1 ≤ search test low high answer ∧ search test low high answer < count ∧
      ∀ position, 0 ≤ position → position < count →
        (test position ↔ position ≤ search test low high answer) := by
  induction low, high, answer using search.induct test with
  | case1 low high answer inside middle passes inductionHypothesis =>
    rw [Bisect.search, if_pos inside, if_pos passes]
    have nonneg := brackets.nonneg
    have bounded := brackets.bounded
    have between : low ≤ middle ∧ middle ≤ high := by omega
    refine inductionHypothesis ⟨rfl, by omega, by omega, bounded, ?_, brackets.failed⟩
    intro position start below
    exact closed position middle start (by omega) (by omega) passes
  | case2 low high answer inside middle fails inductionHypothesis =>
    rw [Bisect.search, if_pos inside, if_neg fails]
    have nonneg := brackets.nonneg
    have bounded := brackets.bounded
    have between : low ≤ middle ∧ middle ≤ high := by omega
    refine inductionHypothesis
      ⟨brackets.adjacent, nonneg, by omega, by omega, brackets.passed, ?_⟩
    intro position above below passes
    exact fails (closed middle position (by omega) (by omega) below passes)
  | case3 low high answer outside =>
    rw [Bisect.search, if_neg outside]
    obtain ⟨adjacent, nonneg, ordered, bounded, passed, failed⟩ := brackets
    refine ⟨by omega, by omega, fun position start below => ⟨fun passes => ?_, fun within => ?_⟩⟩
    · by_contra above
      exact failed position (by omega) below passes
    · exact passed position start (by omega)

/-- The last position before `count` at which a test holds, or `-1`. -/
def last (test : Int → Bool) (count : Int) : Int := search test 0 (count - 1) (-1)

theorem last_spec {test : Int → Bool} {count : Int} (nonneg : 0 ≤ count)
    (closed : ∀ position later, 0 ≤ position → position ≤ later → later < count →
      test later → test position) :
    -1 ≤ last test count ∧ last test count < count ∧
      ∀ position, 0 ≤ position → position < count →
        (test position ↔ position ≤ last test count) :=
  Brackets.search closed
    ⟨by omega, by omega, by omega, by omega, fun _ _ _ => by omega, fun _ _ _ => by omega⟩

end Bisect
