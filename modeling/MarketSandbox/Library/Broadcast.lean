/-
This file develops a publisher with subscribers. A publication takes a mutex,
appends its items one at a time to the queue of every subscriber, in any order
of the subscribers, and releases the mutex; subscribers join and leave while
nobody holds it, and take from their queues at any time, without it: one that
reads while a publication is under way may find nothing in a queue that holds
something. What a subscriber has taken is a prefix of the items of the
publications between its joining and its leaving, and all of them once it finds
nothing while no publication is under way; and these publications are
consecutive ones.
-/

import Mathlib.Data.List.Infix
import Mathlib.Data.List.Nodup
import Mathlib.Data.List.Perm.Basic
import Mathlib.Logic.Function.Basic
import Mathlib.Tactic.SplitIfs
import MarketSandbox.Library.Transition

namespace Broadcast

open Transition

variable {Item : Type}

/-- The next identity to give out, the identities subscribed, the queue of every subscriber, and
what is still to be appended by the publication that holds the mutex. -/
structure State (Item : Type) where
  nextId : Nat
  subscribers : List Nat
  queue : Nat → List Item
  work : Option (List (Nat × List Item))

/-- The steps. -/
inductive Label (Item : Type)
  | subscribe (id : Nat)
  | unsubscribe (id : Nat)
  | publish (items : List Item) (order : List Nat)
  | append
  | next
  | release
  | dequeue (id : Nat) (answer : Option Item)

/-- A publisher nobody has used. -/
def initial : State Item := ⟨1, [], fun _ => [], none⟩

/-- The publisher as a transition system. -/
def system (Item : Type) : System (State Item) (Label Item) where
  initial state := state = initial
  step source label target :=
    match label with
    | .subscribe id => source.work = none ∧ id = source.nextId ∧
        target =
          { source with
            nextId := source.nextId + 1
            subscribers := source.subscribers ++ [id]
            queue := Function.update source.queue id [] }
    | .unsubscribe id => source.work = none ∧
        target = { source with subscribers := source.subscribers.erase id }
    | .publish items order => source.work = none ∧ order.Perm source.subscribers ∧
        target = { source with work := some (order.map fun id => (id, items)) }
    | .append => ∃ id item items rest, source.work = some ((id, item :: items) :: rest) ∧
        target =
          { source with
            queue := Function.update source.queue id (source.queue id ++ [item])
            work := some ((id, items) :: rest) }
    | .next => ∃ id rest, source.work = some ((id, []) :: rest) ∧
        target = { source with work := some rest }
    | .release => source.work = some [] ∧ target = { source with work := none }
    | .dequeue id answer => id < source.nextId ∧
      (answer = (source.queue id).head? ∧
          target =
            { source with queue := Function.update source.queue id (source.queue id).tail } ∨
        -- The reader takes no mutex, and an append may be under way.
        answer = none ∧ source.work ≠ none ∧ target = source)

/-- A reader changes its queue only. -/
theorem dequeue_other {source target : State Item} {id : Nat} {answer : Option Item}
    (step : (system Item).step source (.dequeue id answer) target) :
    target.nextId = source.nextId ∧ target.subscribers = source.subscribers ∧
      target.work = source.work := by
  obtain ⟨_, ⟨_, rfl⟩ | ⟨_, _, rfl⟩⟩ := step
  · exact ⟨rfl, rfl, rfl⟩
  · exact ⟨rfl, rfl, rfl⟩

/-! ### What a subscriber is owed, and what it has taken -/

/-- Follow a subscriber: whether it is subscribed, and the publications while it was. -/
def follow (id : Nat) (state : Bool × List (List Item)) : Label Item → Bool × List (List Item)
  | .subscribe other => (state.1 || other == id, state.2)
  | .unsubscribe other => (state.1 && other != id, state.2)
  | .publish items _ => (state.1, state.2 ++ if state.1 then [items] else [])
  | _ => state

/-- A subscriber is subscribed at the end of a run. -/
def subscribed (id : Nat) (labels : List (Label Item)) : Bool :=
  (labels.foldl (follow id) (false, [])).1

/-- The publications between a subscriber's joining and its leaving. -/
def segment (id : Nat) (labels : List (Label Item)) : List (List Item) :=
  (labels.foldl (follow id) (false, [])).2

/-- The item a step hands to a subscriber. -/
def Label.taken? (id : Nat) : Label Item → Option Item
  | .dequeue other answer => if other = id then answer else none
  | _ => none

/-- The items a subscriber has taken. -/
def dequeued (id : Nat) (labels : List (Label Item)) : List Item :=
  labels.filterMap (Label.taken? id)

/-- The publication a step begins. -/
def Label.publication? : Label Item → Option (List Item)
  | .publish items _ => some items
  | _ => none

/-- All publications. -/
def published (labels : List (Label Item)) : List (List Item) :=
  labels.filterMap Label.publication?

/-- The items that a publication under way has still to append to a subscriber's queue. -/
def pending (id : Nat) (work : Option (List (Nat × List Item))) : List Item :=
  (work.getD []).flatMap fun entry => if entry.1 = id then entry.2 else []

section Concat

variable (id : Nat) (labels : List (Label Item)) (label : Label Item)

theorem follow_concat : (labels ++ [label]).foldl (follow id) (false, []) =
    follow id (subscribed id labels, segment id labels) label := by
  rw [List.foldl_append]
  rfl

theorem subscribed_concat : subscribed id (labels ++ [label]) =
    (follow id (subscribed id labels, segment id labels) label).1 := by
  rw [subscribed, follow_concat]

theorem segment_concat : segment id (labels ++ [label]) =
    (follow id (subscribed id labels, segment id labels) label).2 := by
  rw [segment, follow_concat]

theorem dequeued_concat :
    dequeued id (labels ++ [label]) = dequeued id labels ++ (label.taken? id).toList := by
  rw [dequeued, List.filterMap_append, ← dequeued]
  cases taken : label.taken? id <;> simp [taken]

theorem published_concat :
    published (labels ++ [label]) = published labels ++ label.publication?.toList := by
  rw [published, List.filterMap_append, ← published]
  cases publication : label.publication? <;> simp [publication]

end Concat

/-- What was published to a subscriber stays published. -/
theorem segment_isPrefix (id : Nat) (front back : List (Label Item)) :
    segment id front <+: segment id (front ++ back) := by
  induction back using List.reverseRecOn with
  | nil => rw [List.append_nil]
  | append_singleton labels label inductionHypothesis =>
    rw [← List.append_assoc, segment_concat]
    refine inductionHypothesis.trans ?_
    cases label with
    | publish items order => exact List.prefix_append ..
    | subscribe | unsubscribe | append | next | release | dequeue => exact List.prefix_rfl

/-- Nothing is added to what is owed to a subscriber while nothing is published. -/
theorem segment_append_of_unpublished (id : Nat) (front back : List (Label Item))
    (unpublished : ∀ label ∈ back, label.publication? = none) :
    segment id (front ++ back) = segment id front := by
  induction back using List.reverseRecOn with
  | nil => rw [List.append_nil]
  | append_singleton labels label inductionHypothesis =>
    have last := unpublished label (List.mem_append_right _ List.mem_cons_self)
    have rest := inductionHypothesis fun other member =>
      unpublished other (List.mem_append_left _ member)
    rw [← List.append_assoc, segment_concat]
    cases label with
    | publish items order => cases last
    | subscribe | unsubscribe | append | next | release | dequeue => exact rest

/-- A publication owes its items to every identity in its order once. -/
theorem pending_publish (id : Nat) (items : List Item) {order : List Nat} (distinct : order.Nodup) :
    pending id (some (order.map fun id => (id, items))) = if id ∈ order then items else [] := by
  unfold pending
  rw [Option.getD_some]
  induction order with
  | nil => rfl
  | cons first rest inductionHypothesis =>
    obtain ⟨notLater, later⟩ := List.nodup_cons.mp distinct
    rw [List.map_cons, List.flatMap_cons, inductionHypothesis later]
    by_cases same : first = id
    · subst same
      simp [notLater]
    · have other : id ≠ first := fun equal => same equal.symm
      simp [same, other]

theorem pending_cons (id other : Nat) (items : List Item) (rest : List (Nat × List Item)) :
    pending id (some ((other, items) :: rest)) =
      (if other = id then items else []) ++ pending id (some rest) := rfl

/-! ### The invariant -/

/-- What a run says about the publisher: who is subscribed, and that every item of the
publications to a subscriber is taken, queued or still to be appended. -/
structure Sound (labels : List (Label Item)) (state : State Item) : Prop where
  distinct : state.subscribers.Nodup
  known : ∀ id ∈ state.subscribers, id < state.nextId
  member : ∀ id, subscribed id labels = true ↔ id ∈ state.subscribers
  unused : ∀ id, state.nextId ≤ id → segment id labels = []
  owed : ∀ id, (segment id labels).flatten =
    dequeued id labels ++ state.queue id ++ pending id state.work
  consecutive : ∀ id, segment id labels <:+: published labels
  latest : ∀ id ∈ state.subscribers, segment id labels <:+ published labels

theorem Sound.start : Sound ([] : List (Label Item)) initial where
  distinct := List.nodup_nil
  known _ member := nomatch member
  member _ := by simp [subscribed, initial]
  unused _ _ := rfl
  owed _ := rfl
  consecutive _ := List.infix_rfl
  latest _ member := nomatch member

/-- A step that neither changes the subscribers nor publishes. -/
theorem Sound.keep {labels : List (Label Item)} {source target : State Item} {label : Label Item}
    (sound : Sound labels source) (nextId : target.nextId = source.nextId)
    (subscribers : target.subscribers = source.subscribers)
    (unfollowed : ∀ id state, follow id state label = state)
    (publication : label.publication? = none)
    (owed : ∀ id, dequeued id labels ++ source.queue id ++ pending id source.work =
      dequeued id labels ++ (label.taken? id).toList ++ target.queue id ++
        pending id target.work) : Sound (labels ++ [label]) target where
  distinct := by rw [subscribers]; exact sound.distinct
  known := by rw [subscribers, nextId]; exact sound.known
  member id := by rw [subscribers, subscribed_concat, unfollowed]; exact sound.member id
  unused id := by rw [nextId, segment_concat, unfollowed]; exact sound.unused id
  owed id := by
    rw [segment_concat, unfollowed, dequeued_concat, ← owed id]
    exact sound.owed id
  consecutive id := by
    rw [segment_concat, unfollowed, published_concat, publication, Option.toList_none,
      List.append_nil]
    exact sound.consecutive id
  latest id member := by
    rw [segment_concat, unfollowed, published_concat, publication, Option.toList_none,
      List.append_nil]
    exact sound.latest id (subscribers ▸ member)

section Steps

variable {labels : List (Label Item)} {source : State Item}

theorem Sound.subscribe (sound : Sound labels source) (free : source.work = none) :
    Sound (labels ++ [Label.subscribe source.nextId])
      { source with
        nextId := source.nextId + 1
        subscribers := source.subscribers ++ [source.nextId]
        queue := Function.update source.queue source.nextId [] } where
  distinct := by
    refine sound.distinct.append (List.nodup_singleton _) (List.disjoint_singleton.mpr ?_)
    exact fun member => Nat.lt_irrefl _ (sound.known _ member)
  known id member := by
    rcases List.mem_append.mp member with old | new
    · exact Nat.lt_succ_of_lt (sound.known id old)
    · rw [List.mem_singleton.mp new]
      exact Nat.lt_succ_self _
  member id := by
    rw [subscribed_concat, List.mem_append, List.mem_singleton, ← sound.member id]
    simp only [follow, Bool.or_eq_true, beq_iff_eq, @eq_comm _ source.nextId]
  unused id later := by
    rw [segment_concat]
    exact sound.unused id (Nat.le_of_succ_le later)
  owed id := by
    rw [segment_concat, dequeued_concat]
    change (segment id labels).flatten = _
    by_cases same : id = source.nextId
    · subst same
      have owed := sound.owed source.nextId
      rw [sound.unused _ le_rfl, free] at owed
      obtain ⟨taken, _⟩ := List.append_eq_nil_iff.mp owed.symm
      rw [sound.unused _ le_rfl, (List.append_eq_nil_iff.mp taken).1]
      simp [free, Label.taken?, pending]
    · rw [sound.owed id]
      simp [same, Label.taken?]
  consecutive id := by
    rw [segment_concat, published_concat]
    exact (sound.consecutive id).trans (List.infix_append_left ..)
  latest id member := by
    rw [segment_concat, published_concat]
    change segment id labels <:+ published labels ++ []
    rw [List.append_nil]
    rcases List.mem_append.mp member with old | new
    · exact sound.latest id old
    · rw [List.mem_singleton.mp new, sound.unused _ le_rfl]
      exact List.nil_suffix

theorem Sound.unsubscribe (sound : Sound labels source) (id : Nat) :
    Sound (labels ++ [Label.unsubscribe id])
      { source with subscribers := source.subscribers.erase id } where
  distinct := sound.distinct.erase id
  known other member := sound.known other (List.mem_of_mem_erase member)
  member other := by
    rw [subscribed_concat, sound.distinct.mem_erase_iff, ← sound.member other]
    simp only [follow, Bool.and_eq_true, bne_iff_ne, ne_eq, @eq_comm _ id, and_comm]
  unused other later := by
    rw [segment_concat]
    exact sound.unused other later
  owed other := by
    rw [segment_concat, dequeued_concat]
    change (segment other labels).flatten = _
    rw [sound.owed other]
    simp [Label.taken?]
  consecutive other := by
    rw [segment_concat, published_concat]
    exact (sound.consecutive other).trans (List.infix_append_left ..)
  latest other member := by
    rw [segment_concat, published_concat]
    change segment other labels <:+ published labels ++ []
    rw [List.append_nil]
    exact sound.latest other (List.mem_of_mem_erase member)

theorem Sound.publish (sound : Sound labels source) (free : source.work = none)
    (items : List Item) {order : List Nat} (permuted : order.Perm source.subscribers) :
    Sound (labels ++ [Label.publish items order])
      { source with work := some (order.map fun id => (id, items)) } where
  distinct := sound.distinct
  known := sound.known
  member id := by
    rw [subscribed_concat]
    exact sound.member id
  unused id later := by
    have absent : subscribed id labels = false := by
      rw [Bool.eq_false_iff]
      exact fun present =>
        Nat.not_lt_of_le later (sound.known id ((sound.member id).mp present))
    rw [segment_concat]
    simp [follow, absent, sound.unused id later]
  owed id := by
    have distinct : order.Nodup := permuted.nodup_iff.mpr sound.distinct
    have toSame : id ∈ order ↔ subscribed id labels = true :=
      permuted.mem_iff.trans (sound.member id).symm
    have owed := sound.owed id
    rw [free, show pending id (none : Option (List (Nat × List Item))) = [] from rfl,
      List.append_nil] at owed
    rw [segment_concat, dequeued_concat, pending_publish id items distinct]
    by_cases present : subscribed id labels = true
    · simp [follow, toSame, present, owed, Label.taken?]
    · simp [follow, toSame, present, owed, Label.taken?]
  consecutive id := by
    rw [segment_concat, published_concat]
    by_cases present : subscribed id labels = true
    · simp only [follow, present, if_true]
      obtain ⟨front, whole⟩ := sound.latest id ((sound.member id).mp present)
      refine List.IsSuffix.isInfix ⟨front, ?_⟩
      rw [← List.append_assoc, whole]
      rfl
    · simp only [follow, present, Bool.false_eq_true, if_false, List.append_nil]
      exact (sound.consecutive id).trans (List.infix_append_left ..)
  latest id member := by
    rw [segment_concat, published_concat]
    have present := (sound.member id).mpr member
    simp only [follow, present, if_true]
    obtain ⟨front, whole⟩ := sound.latest id member
    refine ⟨front, ?_⟩
    rw [← List.append_assoc, whole]
    rfl

end Steps

theorem Sound.step {labels : List (Label Item)} {source target : State Item} {label : Label Item}
    (sound : Sound labels source) (step : (system Item).step source label target) :
    Sound (labels ++ [label]) target := by
  cases label with
  | subscribe id =>
    obtain ⟨free, rfl, rfl⟩ := step
    exact sound.subscribe free
  | unsubscribe id =>
    obtain ⟨_, rfl⟩ := step
    exact sound.unsubscribe id
  | publish items order =>
    obtain ⟨free, permuted, rfl⟩ := step
    exact sound.publish free items permuted
  | append =>
    obtain ⟨other, item, items, rest, under, rfl⟩ := step
    refine sound.keep rfl rfl (fun _ _ => rfl) rfl fun id => ?_
    rw [under, pending_cons, pending_cons]
    by_cases same : other = id
    · subst same
      simp [Label.taken?]
    · have different : id ≠ other := fun equal => same equal.symm
      simp [Label.taken?, same, different]
  | next =>
    obtain ⟨other, rest, under, rfl⟩ := step
    refine sound.keep rfl rfl (fun _ _ => rfl) rfl fun id => ?_
    rw [under, pending_cons]
    simp [Label.taken?]
  | release =>
    obtain ⟨under, rfl⟩ := step
    refine sound.keep rfl rfl (fun _ _ => rfl) rfl fun id => ?_
    rw [under]
    simp [Label.taken?, pending]
  | dequeue other answer =>
    obtain ⟨_, ⟨rfl, rfl⟩ | ⟨rfl, _, rfl⟩⟩ := step
    · refine sound.keep rfl rfl (fun _ _ => rfl) rfl fun id => ?_
      by_cases same : other = id
      · subst same
        cases source.queue other <;> simp [Label.taken?]
      · have different : id ≠ other := fun equal => same equal.symm
        simp [Label.taken?, same, different]
    · refine sound.keep rfl rfl (fun _ _ => rfl) rfl fun id => ?_
      simp [Label.taken?]

theorem run_sound {labels : List (Label Item)} {state : State Item}
    (run : Run (system Item) labels state) : Sound labels state := by
  refine run.invariant Sound ?_ fun _ _ _ _ _ sound step => sound.step step
  rintro state rfl
  exact .start

/-! ### What a subscriber takes -/

section Taken

variable {labels : List (Label Item)} {state : State Item}

/-- What a subscriber has taken is a prefix of what was published while it was subscribed. -/
theorem dequeued_isPrefix (run : Run (system Item) labels state) (id : Nat) :
    dequeued id labels <+: (segment id labels).flatten := by
  rw [(run_sound run).owed id, List.append_assoc]
  exact List.prefix_append ..

/-- A subscriber that finds its queue empty while nothing is being published has taken all that
was published while it was subscribed. -/
theorem dequeued_eq_of_empty {target : State Item} {id : Nat}
    (run : Run (system Item) labels state) (free : state.work = none)
    (empty : (system Item).step state (.dequeue id none) target) :
    dequeued id labels = (segment id labels).flatten := by
  obtain ⟨_, ⟨answer, _⟩ | ⟨_, under, _⟩⟩ := empty
  swap
  · exact absurd free under
  have nothing : state.queue id = [] := List.head?_eq_none_iff.mp answer.symm
  rw [(run_sound run).owed id, nothing, free]
  simp [pending]

/-- The publications to a subscriber are consecutive ones. -/
theorem segment_isInfix (run : Run (system Item) labels state) (id : Nat) :
    segment id labels <:+: published labels :=
  (run_sound run).consecutive id

end Taken

end Broadcast
