/-
This file follows the books through the `Normalizer`. Over any calls of
`normalize` and `flushBook`, in any order and at any times, the normalizer is a
slot that coalesces: the book it withholds, or else the one it emitted last, is
the latest it has received, books leave it in the order in which they came, and
none leaves it twice.
-/

import MarketSandbox.Gateway.Normalizer
import MarketSandbox.Library.Coalescing

namespace MarketSandbox

open Coalescing

variable {Price : Type} [Zero Price]

/-! ### The routes of a book -/

namespace Normalizer

/-- Normalizing a batch sends its book: it has trades, or the last book sent is long past. -/
def SendsBook (normalizer : Normalizer Price) (raw : RawBatch Price) (now : Int) : Prop :=
  (RestingMap.normalizeTrades ((raw.order.getD noOrder).nodeId.getD "") (raw.trades.getD [])
    normalizer.resting).1 ≠ [] ∨ SafeInteger.sub now normalizer.lastBookAt ≥ 33

/-- A batch carries its book or has it withheld. -/
theorem normalize_book (normalizer : Normalizer Price) (raw : RawBatch Price) (now : Int)
    {book : WireBook Price} (carries : raw.wireBook = some book) :
    ((normalizer.normalize raw now).1.book = some book ∧
        (normalizer.normalize raw now).2.pendingBook = none) ∨
      ((normalizer.normalize raw now).1.book = none ∧
        (normalizer.normalize raw now).2.pendingBook = some book) := by
  unfold RawBatch.wireBook at carries
  by_cases sends : normalizer.SendsBook raw now
  · left
    unfold SendsBook at sends
    simp only [normalize, carries, if_pos sends, and_self]
  · right
    unfold SendsBook at sends
    simp only [normalize, carries, if_neg sends, and_self]

/-- A batch without a book carries none and leaves the one withheld. -/
theorem normalize_noBook (normalizer : Normalizer Price) (raw : RawBatch Price) (now : Int)
    (carries : raw.wireBook = none) :
    (normalizer.normalize raw now).1.book = none ∧
      (normalizer.normalize raw now).2.pendingBook = normalizer.pendingBook := by
  unfold RawBatch.wireBook at carries
  simp only [normalize, carries, and_self]

/-- A batch with trades has trades on the wire. -/
theorem normalizeTrades_ne_nil (node : String) {trades : List (RawTrade Price)}
    (traded : trades ≠ []) (resting : RestingMap) :
    (RestingMap.normalizeTrades node trades resting).1 ≠ [] := by
  cases trades with
  | nil => exact absurd rfl traded
  | cons trade rest => exact List.cons_ne_nil _ _

/-- A batch with trades carries its own book. -/
theorem normalize_traded (normalizer : Normalizer Price) (raw : RawBatch Price) (now : Int)
    (traded : raw.trades.getD [] ≠ []) :
    (normalizer.normalize raw now).1.book = raw.wireBook := by
  have sends : normalizer.SendsBook raw now := Or.inl (normalizeTrades_ne_nil _ traded _)
  cases carries : raw.wireBook with
  | none => exact (normalizer.normalize_noBook raw now carries).1
  | some book =>
    unfold RawBatch.wireBook at carries
    unfold SendsBook at sends
    simp only [normalize, carries, if_pos sends]

end Normalizer

/-! ### The books of a life -/

/-- A call of the normalizer. -/
inductive NormalizerCall (Price : Type)
  | normalize (raw : RawBatch Price) (now : Int)
  | flushBook

/-- A normalizer with a record of its books: those received, as browsers would see them, the number
of the one withheld last, and those emitted with their numbers. The numbers count the books
received before. -/
structure RecordedNormalizer (Price : Type) where
  normalizer : Normalizer Price
  received : List (WireBook Price)
  withheld : Nat
  emitted : List (Nat × WireBook Price)

namespace RecordedNormalizer

/-- A new normalizer. -/
def initial : RecordedNormalizer Price := ⟨.initial, [], 0, []⟩

/-- Make a call and record its books. -/
def call (recorded : RecordedNormalizer Price) : NormalizerCall Price → RecordedNormalizer Price
  | .normalize raw now =>
    let outcome := recorded.normalizer.normalize raw now
    let number := recorded.received.length
    { normalizer := outcome.2
      received := recorded.received ++ raw.wireBook.toList
      withheld :=
        match raw.wireBook, outcome.1.book with
        | some _, none => number
        | _, _ => recorded.withheld
      emitted := recorded.emitted ++ outcome.1.book.toList.map (number, ·) }
  | .flushBook =>
    let outcome := recorded.normalizer.flushBook
    { recorded with
      normalizer := outcome.2
      emitted := recorded.emitted ++ outcome.1.toList.map (recorded.withheld, ·) }

/-- A new normalizer after some calls. -/
def after (calls : List (NormalizerCall Price)) : RecordedNormalizer Price :=
  calls.foldl call initial

/-- The slot that a recorded normalizer is. -/
def slot (recorded : RecordedNormalizer Price) : Slot (WireBook Price) :=
  ⟨recorded.received, recorded.normalizer.pendingBook.map (recorded.withheld, ·),
    recorded.emitted⟩

/-- A call does one thing to the slot, or nothing. -/
theorem slot_call (recorded : RecordedNormalizer Price) (made : NormalizerCall Price) :
    ∃ actions : List (Action (WireBook Price)),
      (recorded.call made).slot = actions.foldl Slot.perform recorded.slot := by
  cases made with
  | normalize raw now =>
    cases carries : raw.wireBook with
    | none =>
      obtain ⟨noBook, pending⟩ := recorded.normalizer.normalize_noBook raw now carries
      refine ⟨[], ?_⟩
      simp [slot, call, carries, noBook, pending]
    | some book =>
      rcases recorded.normalizer.normalize_book raw now carries with
        ⟨sent, pending⟩ | ⟨withheld, pending⟩
      · refine ⟨[.send book], ?_⟩
        simp [slot, call, carries, sent, pending, Slot.perform]
      · refine ⟨[.hold book], ?_⟩
        simp [slot, call, carries, withheld, pending, Slot.perform]
  | flushBook =>
    refine ⟨[.flush], ?_⟩
    simp only [slot, call, Normalizer.flushBook, Option.map_none, Slot.perform, List.foldl_cons,
      List.foldl_nil, Slot.mk.injEq, true_and, List.append_cancel_left_eq]
    cases recorded.normalizer.pendingBook <;> rfl

/-- A normalizer is a coherent slot at every moment. -/
theorem coherent_after (calls : List (NormalizerCall Price)) : (after calls).slot.Coherent := by
  induction calls using List.reverseRecOn with
  | nil => exact Slot.coherent_empty
  | append_singleton earlier last inductionHypothesis =>
    obtain ⟨actions, performed⟩ := slot_call (after earlier) last
    rw [after, List.foldl_concat, ← after, performed]
    exact inductionHypothesis.performAll actions

/-- The book withheld, or else the one emitted last, is the latest one received; books are emitted
in order, none twice; and a batch with trades carries its own book. -/
theorem throttling_loses_nothing (calls : List (NormalizerCall Price)) :
    (after calls).normalizer.pendingBook.or ((after calls).emitted.getLast?.map Prod.snd) =
        (after calls).received.getLast? ∧
      ((after calls).emitted.Pairwise fun first second => first.1 < second.1) ∧
      (∀ entry ∈ (after calls).emitted, (after calls).received[entry.1]? = some entry.2) ∧
      ∀ raw now, raw.trades.getD [] ≠ [] →
        ((after calls).normalizer.normalize raw now).1.book = raw.wireBook := by
  have coherent := coherent_after calls
  refine ⟨?_, ?_, ?_, fun raw now => (after calls).normalizer.normalize_traded raw now⟩
  · rw [show (after calls).received = (after calls).slot.received from rfl, ← coherent.held_or_sent]
    simp only [slot, Option.map_map]
    cases (after calls).normalizer.pendingBook <;> rfl
  · exact (List.pairwise_append.mp coherent.ordered).1
  · intro entry member
    exact coherent.numbered entry (List.mem_append_left _ member)

end RecordedNormalizer

end MarketSandbox
