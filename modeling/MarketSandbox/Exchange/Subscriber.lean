/-
This file joins the stream of market data to the book behind it. A subscriber
that has read its queue to the end while the engine has nothing left to publish
has read the end of the whole stream of events, from its joining on; so unless
nothing has happened since it joined, the last top of book it has read is that
of the engine's book now, and the trades it has read are the last ones.
-/

import MarketSandbox.Exchange.MarketData
import MarketSandbox.Exchange.MarketStream

namespace MarketSandbox

open MPSCQueue

variable {Price : Type}

/-! ### Event lists -/

section Events

variable [LinearOrder Price]

/-- Leaving out the operations without events loses no events. -/
theorem flatten_eventLists (records : List (Record Price)) :
    (eventLists records).flatten = records.flatMap Record.events := by
  induction records with
  | nil => rfl
  | cons record records inductionHypothesis =>
    rw [List.flatMap_cons, ← inductionHypothesis, eventLists, eventLists, List.map_cons]
    cases empty : record.events with
    | nil => simp
    | cons event events => simp

omit [LinearOrder Price] in
/-- The last top of book is that of the later part which has one. -/
theorem lastTop_append (front back : List (MarketEvent Price)) :
    lastTop (front ++ back) = (lastTop back).or (lastTop front) := by
  rw [lastTop, List.filterMap_append, List.getLast?_append]
  rfl

end Events

section Subscriber

variable [PriceArithmetic Price] {labels : List (EngineLabel Price)} {engine : Engine Price}

/-- The events of an operation end with a top of book, where there are any. -/
theorem lastTop_of_published {records : List (Record Price)} {book : OrderBook Price}
    (run : BookRun records book) (fresh : FreshIds records) (sound : NoNegativeRemainder records)
    {events : List (MarketEvent Price)} (member : events ∈ eventLists records) :
    ∃ top, lastTop events = some top := by
  obtain ⟨inside, nonempty⟩ := List.mem_filter.mp member
  obtain ⟨record, performed, rfl⟩ := List.mem_map.mp inside
  obtain ⟨front, reached, _, step⟩ := bookRun_step_of_mem run fresh sound (.of_linear _) performed
  rcases step_events reached.valid step with ends | ⟨_, _, nothing, _⟩
  · exact ⟨_, by rw [ends, lastTop_append_top]⟩
  · rw [nothing] at nonempty
    exact absurd nonempty Bool.false_ne_true

/-- A subscriber that has found its queue empty while the engine has nothing left to publish has
read the last events of the stream; if it has read any, the last top of book among them is that of
the book as it is now. -/
theorem caught_up_subscriber (run : EngineRun labels engine) (fresh : FreshIds (performed labels))
    (sound : NoNegativeRemainder (performed labels)) {id : Nat}
    (subscribed : id ∈ engine.market.subscribers) (empty : FoundEmpty id labels)
    (published : engine.phase.unpublished? = none) :
    dequeued id (marketSteps labels) <:+ (performed labels).flatMap Record.events ∧
      (dequeued id (marketSteps labels) ≠ [] → ∃ timestamp,
        lastTop (dequeued id (marketSteps labels)) =
          some (engine.book.currentTopOfBook timestamp)) := by
  have all := publications_in_order run
  rw [published, show eventLists (none : Option (Record Price)).toList = [] from rfl,
    List.append_nil] at all
  obtain ⟨front, whole⟩ := segment_isSuffix run.marketRun subscribed
  rw [all] at whole
  have owed := (dequeued_of_foundEmpty run empty).symm
  have stream : front.flatten ++ dequeued id (marketSteps labels) =
      (performed labels).flatMap Record.events := by
    rw [← owed, ← List.flatten_append, whole, flatten_eventLists]
  refine ⟨⟨_, stream⟩, fun nonempty => ?_⟩
  have current := bookRun_published run.bookRun fresh sound (.of_linear _)
  rw [Published, ← stream, lastTop_append] at current
  -- the last publication it has read ends with a top of book
  obtain ⟨before, last, ends⟩ : ∃ before last,
      Broadcast.segment id (publications (marketSteps labels)) = before ++ [last] := by
    rcases List.eq_nil_or_concat (Broadcast.segment id (publications (marketSteps labels)))
      with nothing | ends
    · rw [nothing] at owed
      exact absurd owed.symm nonempty
    · simpa only [List.concat_eq_append] using ends
  have member : last ∈ eventLists (performed labels) := by
    rw [← whole, ends]
    simp
  obtain ⟨top, isTop⟩ := lastTop_of_published run.bookRun fresh sound member
  have known : lastTop (dequeued id (marketSteps labels)) = some top := by
    rw [← owed, ends, List.flatten_append, List.flatten_singleton, lastTop_append, isTop]
    rfl
  rw [known] at current ⊢
  obtain ⟨timestamp, rfl⟩ := current
  exact ⟨timestamp, rfl⟩

end Subscriber

theorem caught_up_subscriber_sample : ∃ engine : Engine ℚ, ∃ timestamp,
    EngineRun (Sample.readLabels ++ Sample.onQueue Sample.emptySteps) engine ∧
      lastTop Sample.partialBid.events = some (engine.book.currentTopOfBook timestamp) := by
  obtain ⟨_, after, _, run⟩ := Sample.streamRun
  have fresh : FreshIds (performed (Sample.readLabels ++ Sample.onQueue Sample.emptySteps)) := by
    decide
  have positive :
      PositiveQuantities (performed (Sample.readLabels ++ Sample.onQueue Sample.emptySteps)) := by
    decide
  have taken : dequeued 1 (marketSteps (Sample.readLabels ++ Sample.onQueue Sample.emptySteps)) =
      Sample.partialBid.events := rfl
  obtain ⟨_, known⟩ := caught_up_subscriber run fresh positive.noNegativeRemainder
    (List.mem_singleton_self 1) Sample.stream_foundEmpty rfl
  obtain ⟨timestamp, top⟩ := known (by rw [taken]; decide)
  exact ⟨_, timestamp, run, taken ▸ top⟩

end MarketSandbox
