/-
This file gives the queue's memory its meaning: one unbounded array of slots,
indexed by location, of which the buffers are consecutive pieces. A view holds
the array, the buffers ever appended, which of them the consumer can still
reach, where the head and the tail stand, and the channel whose tickets are the
locations. The operations below are what the steps of the machine do to a view;
each keeps a view well formed.
-/

import Mathlib.Data.List.Sort
import MarketSandbox.Library.TicketChannel
import MarketSandbox.Queue.Machine

namespace MarketSandbox.MPSCQueue

/-- A strictly sorted list ends with its greatest member. -/
theorem eq_concat_of_greatest {indices : List Nat} {greatest : Nat}
    (sorted : indices.Pairwise (· < ·)) (member : greatest ∈ indices)
    (bound : ∀ index ∈ indices, index ≤ greatest) :
    ∃ others, indices = others ++ [greatest] ∧ greatest ∉ others := by
  obtain ⟨others, behind, rfl⟩ := List.mem_iff_append.mp member
  obtain ⟨_, rest, apart⟩ := List.pairwise_append.mp sorted
  have nothing : behind = [] := by
    refine List.eq_nil_iff_forall_not_mem.mpr fun index inside => ?_
    have above := List.rel_of_pairwise_cons rest inside
    have below := bound index (by simp [inside])
    omega
  subst nothing
  exact ⟨others, rfl, fun inside => lt_irrefl _ (apart greatest inside greatest (by simp))⟩

/-- A member in the middle of a list is taken out. -/
theorem erase_middle {front back : List Nat} {first middle last : Nat}
    (distinct : (front ++ first :: middle :: last :: back).Nodup) :
    (front ++ first :: middle :: last :: back).erase middle = front ++ first :: last :: back := by
  obtain ⟨_, rest, apart⟩ := List.nodup_append.mp distinct
  have notFront : middle ∉ front := fun member => apart middle member middle (by simp) rfl
  have notFirst : first ≠ middle := fun same =>
    (List.nodup_cons.mp rest).1 (same ▸ List.mem_cons_self)
  rw [List.erase_append_right _ notFront, List.erase_cons_tail (by simpa using notFirst),
    List.erase_cons_head]

/-- The queue as an array of slots cut into buffers. Buffers are counted in the order
in which they were appended. -/
structure View (Value : Type) where
  /-- The address of a buffer. -/
  buffer : Nat → Address
  length : Nat
  tailIndex : Nat
  headIndex : Nat
  /-- The next slot of the head buffer. -/
  head : Nat
  /-- The buffers reached from the head buffer along `next`. -/
  live : List Nat
  /-- The buffers from which the head buffer is reached along `prev`. -/
  back : List Nat
  slot : Nat → SlotState
  channel : TicketChannel Value

namespace View

variable {Value : Type} {view : View Value}

/-- The location of the next slot of the head buffer. -/
def front (view : View Value) : Nat := bufferSize * view.headIndex + view.head

/-- The number of locations claimed so far. -/
def claims (view : View Value) : Nat := view.channel.claimed.length

/-- All slots of a buffer have been handled. -/
def Handled (view : View Value) (index : Nat) : Prop :=
  ∀ offset < bufferSize, view.slot (bufferSize * index + offset) = .HANDLED

/-- All slots of a buffer have been filled. -/
def Filled (view : View Value) (index : Nat) : Prop :=
  ∀ offset < bufferSize, view.slot (bufferSize * index + offset) ≠ .EMPTY

/-! ### The steps of the machine, seen on the view -/

/-- The view of the queue after its construction. -/
def initial : View Value where
  buffer _ := 0
  length := 1
  tailIndex := 0
  headIndex := 0
  head := 0
  live := [0]
  back := [0]
  slot _ := .EMPTY
  channel := .empty

/-- The next location is claimed. -/
def claim (view : View Value) (data : Value) : View Value :=
  { view with channel := view.channel.claim data }

/-- A buffer is appended. -/
def append (view : View Value) (address : Address) : View Value :=
  { view with
    buffer := Function.update view.buffer view.length address
    length := view.length + 1
    live := view.live ++ [view.length]
    back := view.back ++ [view.length] }

/-- The tail pointer moves to the next buffer. -/
def advanceTail (view : View Value) : View Value :=
  { view with tailIndex := view.tailIndex + 1 }

/-- A slot is filled. -/
def publish (view : View Value) (location : Nat) : View Value :=
  { view with
    slot := Function.update view.slot location .SET
    channel := view.channel.publish location }

/-- The head moves past a slot that has been handled. -/
def advance (view : View Value) : View Value := { view with head := view.head + 1 }

/-- The value of the head slot is taken. -/
def take (view : View Value) : View Value :=
  { view with head := view.head + 1, channel := view.channel.deliver view.front }

/-- The value of a slot behind the head is taken. -/
def handle (view : View Value) (location : Nat) : View Value :=
  { view with
    slot := Function.update view.slot location .HANDLED
    channel := view.channel.deliver location }

/-- The head moves to the next buffer. -/
def moveHead (view : View Value) (index : Nat) : View Value :=
  { view with headIndex := index, head := 0, live := view.live.tail, back := view.back.tail }

/-- A buffer is taken out of the chain of `prev`. -/
def unlinkBack (view : View Value) (index : Nat) : View Value :=
  { view with back := view.back.erase index }

/-- A buffer is taken out of the chain of `next`. -/
def unlink (view : View Value) (index : Nat) : View Value :=
  { view with live := view.live.erase index }

theorem slot_publish (location other : Nat) :
    (view.publish location).slot other =
      if other = location then .SET else view.slot other :=
  Function.update_apply ..

theorem slot_handle (location other : Nat) :
    (view.handle location).slot other =
      if other = location then .HANDLED else view.slot other :=
  Function.update_apply ..

/-! ### Well-formed views -/

/-- A view whose parts agree with each other. -/
structure WellFormed (view : View Value) : Prop where
  tail_lt : view.tailIndex < view.length
  length_le : view.length ≤ view.tailIndex + 2
  first : ∃ behind, view.live = view.headIndex :: behind
  sorted : view.live.Pairwise (· < ·)
  live_lt : ∀ index ∈ view.live, index < view.length
  recent : ∀ index, view.tailIndex ≤ index → index < view.length → index ∈ view.live
  skipped : ∀ index, view.headIndex < index → index < view.length → index ∉ view.live →
    view.Handled index
  back_sublist : view.back.Sublist view.live
  back_last : view.length - 1 ∈ view.back
  head_le : view.head ≤ bufferSize
  bounded : bufferSize * view.length ≤ view.claims + 1 + bufferSize
  written : ∀ location, view.slot location ≠ .EMPTY → location / bufferSize ≤ view.tailIndex
  passed : ∀ location < view.front, view.slot location ≠ .EMPTY
  published : ∀ location, view.channel.published location ↔ view.slot location ≠ .EMPTY
  delivered : ∀ location, location ∈ view.channel.delivered ↔
    location < view.front ∨ view.slot location = .HANDLED
  ordered : view.channel.Ordered

namespace WellFormed

variable (wellFormed : view.WellFormed)
include wellFormed

theorem head_mem : view.headIndex ∈ view.live := by
  obtain ⟨behind, whole⟩ := wellFormed.first
  rw [whole]
  exact List.mem_cons_self

theorem head_le_of_mem {index : Nat} (member : index ∈ view.live) : view.headIndex ≤ index := by
  obtain ⟨behind, whole⟩ := wellFormed.first
  rw [whole] at member
  rcases List.mem_cons.mp member with rfl | member
  · exact le_rfl
  · have sorted := whole ▸ wellFormed.sorted
    exact (List.rel_of_pairwise_cons sorted member).le

theorem tail_mem : view.tailIndex ∈ view.live :=
  wellFormed.recent _ le_rfl wellFormed.tail_lt

theorem head_le_tail : view.headIndex ≤ view.tailIndex :=
  wellFormed.head_le_of_mem wellFormed.tail_mem

theorem last_mem : view.length - 1 ∈ view.live := by
  have bound := wellFormed.tail_lt
  exact wellFormed.recent _ (by omega) (by omega)

theorem live_nodup : view.live.Nodup := wellFormed.sorted.imp ne_of_lt

theorem live_le_last {index : Nat} (member : index ∈ view.live) : index ≤ view.length - 1 := by
  have bound := wellFormed.live_lt index member
  omega

theorem back_lt (index : Nat) (member : index ∈ view.back) : index < view.length :=
  wellFormed.live_lt index (wellFormed.back_sublist.subset member)

theorem live_concat : ∃ others, view.live = others ++ [view.length - 1] ∧
    view.length - 1 ∉ others :=
  eq_concat_of_greatest wellFormed.sorted wellFormed.last_mem fun _ => wellFormed.live_le_last

theorem back_concat : ∃ others, view.back = others ++ [view.length - 1] ∧
    view.length - 1 ∉ others :=
  eq_concat_of_greatest (wellFormed.sorted.sublist wellFormed.back_sublist)
    wellFormed.back_last fun _ member =>
      wellFormed.live_le_last (wellFormed.back_sublist.subset member)

/-- A filled slot has been claimed. -/
theorem claimed {location : Nat} (filled : view.slot location ≠ .EMPTY) :
    location < view.claims :=
  wellFormed.ordered.published_claimed location ((wellFormed.published location).mpr filled)

/-- Everything published before another location was claimed has been filled. -/
theorem earlier_filled {early late : Nat} (earlier : view.channel.earlier early late) :
    view.slot early ≠ .EMPTY :=
  (wellFormed.published early).mp (wellFormed.ordered.earlier_published early late earlier)

omit wellFormed in
theorem initial : (initial : View Value).WellFormed where
  tail_lt := Nat.zero_lt_one
  length_le := Nat.le_succ 1
  first := ⟨[], rfl⟩
  sorted := List.pairwise_singleton _ _
  live_lt index member := by
    obtain rfl := List.mem_singleton.mp member
    exact Nat.zero_lt_one
  recent index _ bound := by
    obtain rfl := Nat.lt_one_iff.mp bound
    exact List.mem_singleton_self 0
  skipped index above bound := absurd bound (Nat.not_lt.mpr above)
  back_sublist := List.Sublist.refl _
  back_last := List.mem_singleton_self 0
  head_le := Nat.zero_le _
  bounded := by simp [View.initial, View.claims, TicketChannel.empty]
  written location filled := absurd rfl filled
  passed location bound := absurd bound (Nat.not_lt_zero location)
  published location := ⟨fun published => published.elim, fun filled => absurd rfl filled⟩
  delivered location := by
    simp [View.initial, View.front, TicketChannel.empty]
  ordered := .empty

theorem claim (data : Value) : (view.claim data).WellFormed :=
  { wellFormed with
    bounded := by
      have bounded := wellFormed.bounded
      simp only [View.claim, View.claims, TicketChannel.claim, List.length_append,
        List.length_singleton] at bounded ⊢
      omega
    ordered := wellFormed.ordered.claim data }

theorem append (address : Address) (last : view.tailIndex + 1 = view.length)
    (needed : bufferSize * view.length ≤ view.claims + 1) : (view.append address).WellFormed :=
  { wellFormed with
    tail_lt := Nat.lt_succ_of_lt wellFormed.tail_lt
    length_le := by
      change view.length + 1 ≤ view.tailIndex + 2
      omega
    first := by
      obtain ⟨behind, whole⟩ := wellFormed.first
      exact ⟨behind ++ [view.length], by rw [View.append, whole, List.cons_append]⟩
    sorted := by
      refine List.pairwise_append.mpr ⟨wellFormed.sorted, List.pairwise_singleton _ _, ?_⟩
      intro index member other added
      obtain rfl := List.mem_singleton.mp added
      exact wellFormed.live_lt index member
    live_lt := by
      intro index member
      rcases List.mem_append.mp member with member | added
      · exact Nat.lt_succ_of_lt (wellFormed.live_lt index member)
      · obtain rfl := List.mem_singleton.mp added
        exact Nat.lt_succ_self _
    recent := by
      intro index above bound
      rcases Nat.lt_succ_iff_lt_or_eq.mp bound with bound | rfl
      · exact List.mem_append_left _ (wellFormed.recent index above bound)
      · exact List.mem_append_right _ List.mem_cons_self
    skipped := by
      intro index above bound skipped
      obtain ⟨notLive, notAdded⟩ := not_or.mp (mt List.mem_append.mpr skipped)
      have different : index ≠ view.length := mt List.mem_singleton.mpr notAdded
      exact wellFormed.skipped index above
        (lt_of_le_of_ne (Nat.lt_succ_iff.mp bound) different) notLive
    back_sublist := wellFormed.back_sublist.append_right _
    back_last := List.mem_append_right _ List.mem_cons_self
    bounded := by
      change bufferSize * (view.length + 1) ≤ view.claims + 1 + bufferSize
      rw [Nat.mul_succ]
      exact Nat.add_le_add_right needed _ }

theorem advanceTail (pending : view.tailIndex + 2 = view.length) :
    view.advanceTail.WellFormed :=
  { wellFormed with
    tail_lt := by
      change view.tailIndex + 1 < view.length
      omega
    length_le := by
      change view.length ≤ view.tailIndex + 1 + 2
      omega
    recent := fun index above => wellFormed.recent index (Nat.le_of_succ_le above)
    written := fun location filled => Nat.le_succ_of_le (wellFormed.written location filled) }

theorem publish {location : Nat} (owned : view.slot location = .EMPTY)
    (bound : location < view.claims) (reached : location / bufferSize ≤ view.tailIndex) :
    (view.publish location).WellFormed :=
  { wellFormed with
    skipped := by
      intro index above below skipped offset inside
      have handled := wellFormed.skipped index above below skipped offset inside
      rw [slot_publish, if_neg, handled]
      rintro rfl
      simp [owned] at handled
    written := by
      intro other filled
      by_cases same : other = location
      · exact same ▸ reached
      · exact wellFormed.written other (by rwa [slot_publish, if_neg same] at filled)
    passed := by
      intro other before
      have filled := wellFormed.passed other before
      rw [slot_publish]
      split
      · exact SlotState.noConfusion
      · exact filled
    published := by
      intro other
      change (other = location ∨ view.channel.published other) ↔ _
      rw [slot_publish, wellFormed.published other]
      by_cases same : other = location
      · simp [same]
      · simp [same]
    delivered := by
      intro other
      refine (wellFormed.delivered other).trans (or_congr_right ?_)
      rw [slot_publish]
      by_cases same : other = location
      · simp [same, owned]
      · simp [same]
    ordered := wellFormed.ordered.publish bound }

omit wellFormed in
/-- One more location lies before the head when the head moves on. -/
theorem lt_front_advance (view : View Value) (location : Nat) :
    location < view.advance.front ↔ location < view.front ∨ location = view.front := by
  change location < bufferSize * view.headIndex + (view.head + 1) ↔ _
  rw [← Nat.add_assoc]
  exact Nat.lt_succ_iff_lt_or_eq

theorem advance (inside : view.head < bufferSize) (handled : view.slot view.front = .HANDLED) :
    view.advance.WellFormed :=
  { wellFormed with
    head_le := inside
    passed := by
      intro location before
      rcases (lt_front_advance view location).mp before with before | rfl
      · exact wellFormed.passed location before
      · exact fun empty => SlotState.noConfusion (handled.symm.trans empty)
    delivered := by
      intro location
      refine (wellFormed.delivered location).trans ?_
      rw [lt_front_advance, or_assoc]
      refine or_congr_right ⟨Or.inr, ?_⟩
      rintro (rfl | handled)
      · exact handled
      · exact handled }

theorem take (inside : view.head < bufferSize) (set : view.slot view.front = .SET) :
    view.take.WellFormed :=
  { wellFormed with
    head_le := inside
    passed := by
      intro location before
      rcases (lt_front_advance view location).mp before with before | rfl
      · exact wellFormed.passed location before
      · exact fun empty => SlotState.noConfusion (set.symm.trans empty)
    delivered := by
      intro location
      change location ∈ view.channel.delivered ++ [view.front] ↔ location < view.advance.front ∨ _
      rw [lt_front_advance, List.mem_append, List.mem_singleton, wellFormed.delivered location,
        or_right_comm]
      rfl
    ordered := by
      refine wellFormed.ordered.deliver ?_ ?_ ?_
      · exact (wellFormed.published _).mpr fun empty =>
          SlotState.noConfusion (set.symm.trans empty)
      · intro member
        rcases (wellFormed.delivered _).mp member with before | handled
        · exact absurd before (lt_irrefl _)
        · exact SlotState.noConfusion (set.symm.trans handled)
      · intro early earlier
        exact (wellFormed.delivered early).mpr
          (Or.inl (wellFormed.ordered.earlier_lt early _ earlier)) }

theorem handle {location : Nat} (set : view.slot location = .SET)
    (behind : view.front ≤ location)
    (complete : ∀ early, view.channel.earlier early location → early ∈ view.channel.delivered) :
    (view.handle location).WellFormed :=
  { wellFormed with
    skipped := by
      intro index above below skipped offset inside
      have handled := wellFormed.skipped index above below skipped offset inside
      rw [slot_handle, handled, ite_self]
    written := by
      intro other filled
      by_cases same : other = location
      · exact same ▸ wellFormed.written location (by simp [set])
      · exact wellFormed.written other (by rwa [slot_handle, if_neg same] at filled)
    passed := by
      intro other before
      have filled := wellFormed.passed other before
      rw [slot_handle]
      split
      · exact SlotState.noConfusion
      · exact filled
    published := by
      intro other
      refine (wellFormed.published other).trans ?_
      rw [slot_handle]
      by_cases same : other = location
      · simp [same, set]
      · simp [same]
    delivered := by
      intro other
      change other ∈ view.channel.delivered ++ [location] ↔
        other < view.front ∨ (view.handle location).slot other = .HANDLED
      rw [List.mem_append, List.mem_singleton, wellFormed.delivered other, or_assoc,
        slot_handle]
      by_cases same : other = location
      · simp [same]
      · simp [same]
    ordered := by
      refine wellFormed.ordered.deliver ?_ ?_ complete
      · exact (wellFormed.published location).mpr (by simp [set])
      · intro member
        rcases (wellFormed.delivered location).mp member with before | handled
        · exact absurd before (Nat.not_lt.mpr behind)
        · simp [set] at handled }

/-- What lies between two buffers that follow each other has been handled. -/
theorem handled_between {before after : List Nat} {first second location : Nat}
    (whole : view.live = before ++ first :: second :: after)
    (behind : bufferSize * (first + 1) ≤ location) (ahead : location < bufferSize * second) :
    view.slot location = .HANDLED := by
  have range : first < location / bufferSize ∧ location / bufferSize < second := by
    simp only [bufferSize] at behind ahead ⊢
    omega
  have sorted := wellFormed.sorted
  rw [whole] at sorted
  obtain ⟨_, rest, below⟩ := List.pairwise_append.mp sorted
  have skipped : location / bufferSize ∉ view.live := by
    rw [whole]
    intro member
    rcases List.mem_append.mp member with member | member
    · exact absurd (below _ member first List.mem_cons_self) (Nat.not_lt.mpr range.1.le)
    · rcases List.mem_cons.mp member with same | member
      · exact absurd same (Nat.ne_of_gt range.1)
      · rcases List.mem_cons.mp member with same | member
        · exact absurd same (Nat.ne_of_lt range.2)
        · have above := List.rel_of_pairwise_cons (List.pairwise_cons.mp rest).2 member
          exact absurd above (Nat.not_lt.mpr range.2.le)
  have firstMember : first ∈ view.live := by simp [whole]
  have secondMember : second ∈ view.live := by simp [whole]
  have handled := wellFormed.skipped (location / bufferSize)
    ((wellFormed.head_le_of_mem firstMember).trans_lt range.1)
    (range.2.trans (wellFormed.live_lt second secondMember)) skipped
    (location % bufferSize) (Nat.mod_lt _ (by decide))
  rwa [Nat.div_add_mod] at handled

theorem moveHead {index : Nat} {behind : List Nat} (full : view.head = bufferSize)
    (whole : view.live = view.headIndex :: index :: behind) (same : view.back = view.live)
    (notLast : view.headIndex < view.tailIndex) : (view.moveHead index).WellFormed := by
  have tail : view.live.tail = index :: behind := by rw [whole, List.tail_cons]
  have sorted := wellFormed.sorted
  rw [whole] at sorted
  have above : view.headIndex < index := List.rel_of_pairwise_cons sorted List.mem_cons_self
  have mem_tail {other : Nat} (member : other ∈ view.live) (different : view.headIndex < other) :
      other ∈ view.live.tail := by
    rw [whole] at member ⊢
    exact (List.mem_cons.mp member).resolve_left (Nat.ne_of_gt different)
  have front : view.front = bufferSize * (view.headIndex + 1) := by
    rw [View.front, full, Nat.mul_succ]
  -- the locations the head jumps over have been handled
  have before_iff (location : Nat) : location < (view.moveHead index).front ∨
      view.slot location = .HANDLED ↔ location < view.front ∨ view.slot location = .HANDLED := by
    change location < bufferSize * index + 0 ∨ _ ↔ _
    constructor
    · rintro (before | handled)
      · rcases Nat.lt_or_ge location view.front with passed | jumped
        · exact Or.inl passed
        · exact Or.inr (@handled_between _ _ wellFormed [] _ _ _ _ whole (front ▸ jumped) before)
      · exact Or.inr handled
    · rintro (before | handled)
      · rw [front] at before
        exact Or.inl (before.trans_le (Nat.mul_le_mul_left _ above))
      · exact Or.inr handled
  exact { wellFormed with
    first := ⟨behind, tail⟩
    sorted := by
      change view.live.tail.Pairwise (· < ·)
      rw [tail]
      exact (List.pairwise_cons.mp sorted).2
    live_lt := fun other member => wellFormed.live_lt other (List.mem_of_mem_tail member)
    recent := fun other aboveTail bound =>
      mem_tail (wellFormed.recent other aboveTail bound) (notLast.trans_le aboveTail)
    skipped := fun other aboveIndex bound skipped =>
      wellFormed.skipped other (above.trans aboveIndex) bound fun member =>
        skipped (mem_tail member (above.trans aboveIndex))
    back_sublist := by
      change view.back.tail.Sublist view.live.tail
      rw [same]
    back_last := by
      change view.length - 1 ∈ view.back.tail
      rw [same]
      have bound := wellFormed.tail_lt
      exact mem_tail wellFormed.last_mem (by omega)
    head_le := Nat.zero_le _
    passed := by
      intro location before
      rcases (before_iff location).mp (Or.inl before) with before | handled
      · exact wellFormed.passed location before
      · exact fun empty => SlotState.noConfusion (handled.symm.trans empty)
    delivered := fun location =>
      (wellFormed.delivered location).trans (before_iff location).symm }

theorem unlinkBack {index : Nat} (notLast : index < view.tailIndex) :
    (view.unlinkBack index).WellFormed :=
  { wellFormed with
    back_sublist := List.erase_sublist.trans wellFormed.back_sublist
    back_last := by
      have bound := wellFormed.tail_lt
      have different : view.length - 1 ≠ index := by omega
      exact (List.mem_erase_of_ne different).mpr wellFormed.back_last }

theorem unlink {index : Nat} (notHead : index ≠ view.headIndex)
    (notLast : index < view.tailIndex) (handled : view.Handled index)
    (unlinked : view.back = view.live.erase index) : (view.unlink index).WellFormed :=
  { wellFormed with
    first := by
      obtain ⟨behind, whole⟩ := wellFormed.first
      refine ⟨behind.erase index, ?_⟩
      rw [View.unlink, whole]
      exact List.erase_cons_tail (by simpa using notHead.symm)
    sorted := wellFormed.sorted.sublist List.erase_sublist
    live_lt := fun other member => wellFormed.live_lt other (List.mem_of_mem_erase member)
    recent := by
      intro other above bound
      refine (List.mem_erase_of_ne ?_).mpr (wellFormed.recent other above bound)
      exact Nat.ne_of_gt (notLast.trans_le above)
    skipped := by
      intro other above bound skipped
      by_cases same : other = index
      · exact same ▸ handled
      · exact wellFormed.skipped other above bound fun member =>
          skipped ((List.mem_erase_of_ne same).mpr member)
    back_sublist := by rw [View.unlink, unlinked] }

end WellFormed

end View

end MarketSandbox.MPSCQueue
