/-
This file says how the queue's memory lays out a view: every buffer appended has
an address, carries its position, and holds its piece of the array; the buffers
that are still reachable are linked in order. What each step of the machine
writes keeps the layout, for the view the step leads to.
-/

import MarketSandbox.Library.LinkedList
import MarketSandbox.Queue.View

namespace MarketSandbox.MPSCQueue

variable {Value : Type}

/-- The memory holds the view. -/
structure Represents (memory : Memory Value) (view : View Value) : Prop where
  address : ∀ index < view.length, view.buffer index < memory.allocated
  position : ∀ index < view.length, memory.positionInQueue (view.buffer index) = index + 1
  tail : memory.tail = view.claims
  tailOfQueue : memory.tailOfQueue = view.buffer view.tailIndex
  headOfQueue : memory.headOfQueue = view.buffer view.headIndex
  head : memory.head (view.buffer view.headIndex) = view.head
  heads : ∀ index, view.headIndex < index → index < view.length →
    memory.head (view.buffer index) = 0
  forward : LinkedList.Forward memory.next (view.live.map view.buffer)
  last : memory.next (view.buffer (view.length - 1)) = none
  backward : LinkedList.Backward memory.prev (view.back.map view.buffer)
  walk : ∀ index, 0 < index → index < view.length → ∃ before < index,
    memory.prev (view.buffer index) = some (view.buffer before) ∧
      ∀ other, before < other → other < index → view.Filled other
  slot : ∀ index < view.length, ∀ offset < bufferSize,
    memory.isSet (view.buffer index) offset = view.slot (bufferSize * index + offset)
  data : ∀ index < view.length, ∀ offset < bufferSize,
    view.slot (bufferSize * index + offset) ≠ .EMPTY →
      view.channel.claimed[bufferSize * index + offset]? =
        some (memory.data (view.buffer index) offset)

/-- One entry of a table is updated. -/
theorem update_entry {Entry : Type} (table : Address → Nat → Entry) (row other : Address)
    (column position : Nat) (entry : Entry) :
    Function.update table row (Function.update (table row) column entry) other position =
      if other = row ∧ position = column then entry else table other position := by
  by_cases same : other = row
  · subst same
    rw [Function.update_self, Function.update_apply]
    simp
  · rw [Function.update_of_ne same, if_neg fun both => same both.1]

theorem wrap_of_lt {value : Nat} (bound : value < 2 ^ 32) : wrap value = value :=
  Nat.mod_eq_of_lt bound

theorem prevSize_of_lt {index : Nat} (bound : bufferSize * index < 2 ^ 32) :
    prevSize (index + 1) = bufferSize * index := by
  have small : index < 2 ^ 32 := by
    simp only [bufferSize] at bound
    omega
  have predecessor : wrap (index + 1 + 2 ^ 32 - 1) = index := by
    rw [wrap]
    omega
  rw [prevSize, predecessor, wrap_of_lt bound]

/-- A location determines its buffer and its offset. -/
theorem location_injective {first second offset other : Nat} (inside : offset < bufferSize)
    (otherInside : other < bufferSize)
    (same : bufferSize * first + offset = bufferSize * second + other) :
    first = second ∧ offset = other := by
  simp only [bufferSize] at inside otherInside same
  omega

namespace Represents

variable {memory : Memory Value} {view : View Value}

/-! ### Reading the memory -/

section Reading

variable (represents : Represents memory view)
include represents

theorem buffer_injective {first second : Nat} (firstBound : first < view.length)
    (secondBound : second < view.length) (same : view.buffer first = view.buffer second) :
    first = second := by
  have left := represents.position first firstBound
  have right := represents.position second secondBound
  rw [same, right] at left
  omega

theorem buffer_notMem {indices : List Nat} {index : Nat} (bound : index < view.length)
    (bounds : ∀ other ∈ indices, other < view.length) (outside : index ∉ indices) :
    view.buffer index ∉ indices.map view.buffer := by
  intro member
  obtain ⟨other, inside, same⟩ := List.mem_map.mp member
  obtain rfl := represents.buffer_injective (bounds other inside) bound same
  exact outside inside

theorem map_nodup {indices : List Nat} (distinct : indices.Nodup)
    (bounds : ∀ other ∈ indices, other < view.length) : (indices.map view.buffer).Nodup := by
  refine List.Nodup.map_on ?_ distinct
  intro first firstMember second secondMember same
  exact represents.buffer_injective (bounds first firstMember) (bounds second secondMember) same

/-- The slot at an offset of a buffer is the slot at its location. -/
theorem same_slot_iff {first second offset other : Nat} (firstBound : first < view.length)
    (secondBound : second < view.length) (inside : offset < bufferSize)
    (otherInside : other < bufferSize) :
    view.buffer first = view.buffer second ∧ offset = other ↔
      bufferSize * first + offset = bufferSize * second + other := by
  constructor
  · rintro ⟨same, rfl⟩
    rw [represents.buffer_injective firstBound secondBound same]
  · intro same
    obtain ⟨rfl, rfl⟩ := location_injective inside otherInside same
    exact ⟨rfl, rfl⟩

theorem newAddress_ne {index : Nat} (bound : index < view.length) :
    view.buffer index ≠ memory.allocated :=
  Nat.ne_of_lt (represents.address index bound)

theorem newAddress_notMem {indices : List Nat} (bounds : ∀ other ∈ indices, other < view.length) :
    memory.allocated ∉ indices.map view.buffer := by
  intro member
  obtain ⟨other, inside, same⟩ := List.mem_map.mp member
  exact represents.newAddress_ne (bounds other inside) same

theorem head_eq : memory.head memory.headOfQueue = view.head := by
  rw [represents.headOfQueue, represents.head]

variable (wellFormed : view.WellFormed)
include wellFormed

theorem front_slot (inside : view.head < bufferSize) :
    memory.isSet memory.headOfQueue (memory.head memory.headOfQueue) = view.slot view.front := by
  have bound := wellFormed.live_lt _ wellFormed.head_mem
  rw [represents.headOfQueue, represents.head, represents.slot _ bound _ inside]
  rfl

/-- The head field of a buffer behind the head buffer is zero. -/
theorem head_of_live {index : Nat} (member : index ∈ view.live)
    (different : index ≠ view.headIndex) : memory.head (view.buffer index) = 0 := by
  have above := wellFormed.head_le_of_mem member
  exact represents.heads index (by omega) (wellFormed.live_lt index member)

theorem tailOfQueue_eq_iff {index : Nat} (bound : index < view.length) :
    view.buffer index = memory.tailOfQueue ↔ index = view.tailIndex := by
  rw [represents.tailOfQueue]
  refine ⟨represents.buffer_injective bound wellFormed.tail_lt, ?_⟩
  rintro rfl
  rfl

/-- The buffer that follows a reachable buffer before the last one. -/
theorem next_of_live {index : Nat} (member : index ∈ view.live)
    (notLast : index + 1 ≠ view.length) : ∃ before other after,
    view.live = before ++ index :: other :: after ∧
      memory.next (view.buffer index) = some (view.buffer other) := by
  obtain ⟨before, behind, whole⟩ := List.mem_iff_append.mp member
  cases behind with
  | nil =>
    have final := wellFormed.last_mem
    have sorted := wellFormed.sorted
    have bound := wellFormed.live_lt index member
    rw [whole] at final sorted
    rcases List.mem_append.mp final with final | final
    · have below := (List.pairwise_append.mp sorted).2.2 _ final index (by simp)
      omega
    · have same := List.mem_singleton.mp final
      omega
  | cons other after =>
    refine ⟨before, other, after, whole, ?_⟩
    have forward := represents.forward
    rw [whole, List.map_append, List.map_cons, List.map_cons] at forward
    exact forward.next_eq

/-- The buffer that follows the head buffer. -/
theorem next_of_head (notLast : view.headIndex < view.tailIndex) : ∃ other after,
    view.live = view.headIndex :: other :: after ∧
      memory.next memory.headOfQueue = some (view.buffer other) := by
  have bound := wellFormed.tail_lt
  obtain ⟨before, other, after, whole, next⟩ :=
    represents.next_of_live wellFormed wellFormed.head_mem (by omega)
  cases before with
  | nil => exact ⟨other, after, whole, represents.headOfQueue ▸ next⟩
  | cons first before =>
    obtain ⟨behind, start⟩ := wellFormed.first
    have distinct := wellFormed.live_nodup
    rw [whole, List.cons_append] at start distinct
    obtain ⟨rfl, _⟩ := List.cons.inj start
    exact absurd (by simp) (List.nodup_cons.mp distinct).1

omit wellFormed in
/-- The buffer before a reachable buffer. -/
theorem prev_of_live {front back : List Nat} {first second : Nat}
    (whole : view.back = front ++ first :: second :: back) :
    memory.prev (view.buffer second) = some (view.buffer first) := by
  have backward := represents.backward
  rw [whole, List.map_append, List.map_cons, List.map_cons] at backward
  exact backward.prev_eq

end Reading

/-! ### Writing the memory -/

theorem construct [Inhabited Value] : Represents (Memory.construct : Memory Value) .initial where
  address _ _ := Nat.zero_lt_one
  position index bound := by
    obtain rfl := Nat.lt_one_iff.mp bound
    rfl
  tail := rfl
  tailOfQueue := rfl
  headOfQueue := rfl
  head := rfl
  heads index above bound := absurd bound (Nat.not_lt.mpr above)
  forward := List.isChain_singleton _
  last := rfl
  backward := List.isChain_singleton _
  walk index above bound := absurd bound (Nat.not_lt.mpr above)
  slot _ _ _ _ := rfl
  data _ _ _ _ filled := absurd rfl filled

section Writing

variable (represents : Represents memory view)
include represents

theorem claim (data : Value) (bound : view.claims + 1 < 2 ^ 32) :
    Represents { memory with tail := wrap (memory.tail + 1) } (view.claim data) :=
  { represents with
    tail := by
      change wrap (memory.tail + 1) = (view.channel.claimed ++ [data]).length
      rw [represents.tail, wrap_of_lt bound, List.length_append]
      rfl
    data := by
      intro index below offset inside filled
      have found := represents.data index below offset inside filled
      obtain ⟨claimed, _⟩ := List.getElem?_eq_some_iff.mp found
      exact (List.getElem?_append_left claimed).trans found }

theorem exchangeTail :
    Represents (memory.exchangeTail (view.buffer view.tailIndex)
      (view.buffer (view.tailIndex + 1))) view.advanceTail := by
  rw [Memory.exchangeTail, if_pos represents.tailOfQueue]
  exact { represents with tailOfQueue := rfl }

theorem advanceHead : Represents memory.advanceHead view.advance :=
  { represents with
    head := by
      change Function.update memory.head memory.headOfQueue _ (view.buffer view.headIndex) =
        view.head + 1
      rw [← represents.headOfQueue, Function.update_self, represents.head_eq]
    heads := by
      intro index above bound
      have different : view.buffer index ≠ memory.headOfQueue := by
        rw [represents.headOfQueue]
        exact fun same => Nat.ne_of_gt above
          (represents.buffer_injective bound (above.trans bound) same)
      exact (Function.update_of_ne different ..).trans (represents.heads index above bound) }

theorem advanceHead_take : Represents memory.advanceHead view.take :=
  { represents.advanceHead with }

/-- A buffer that was filled is still filled when more slots are. -/
theorem walk_of_filled {other : View Value} (buffers : other.buffer = view.buffer)
    (length : other.length = view.length)
    (filled : ∀ location, view.slot location ≠ .EMPTY → other.slot location ≠ .EMPTY) :
    ∀ index, 0 < index → index < other.length → ∃ before < index,
      memory.prev (other.buffer index) = some (other.buffer before) ∧
        ∀ between, before < between → between < index → other.Filled between := by
  intro index above below
  rw [buffers]
  obtain ⟨before, lower, prev, whole⟩ := represents.walk index above (length ▸ below)
  exact ⟨before, lower, prev, fun between first second offset inside =>
    filled _ (whole between first second offset inside)⟩

theorem fillSlot {index offset : Nat} {data : Value} (bound : index < view.length)
    (inside : offset < bufferSize)
    (found : view.channel.claimed[bufferSize * index + offset]? = some data) :
    Represents (memory.fillSlot (view.buffer index) offset data)
      (view.publish (bufferSize * index + offset)) :=
  { represents with
    walk := by
      refine represents.walk_of_filled rfl rfl fun location filled => ?_
      rw [View.slot_publish]
      split
      · exact SlotState.noConfusion
      · exact filled
    slot := by
      intro other below position within
      have entry := update_entry memory.isSet (view.buffer index) (view.buffer other) offset
        position .SET
      rw [represents.slot other below position within] at entry
      simp only [represents.same_slot_iff below bound within inside] at entry
      rw [View.slot_publish]
      exact entry
    data := by
      intro other below position within filled
      have entry := update_entry memory.data (view.buffer index) (view.buffer other) offset
        position data
      simp only [represents.same_slot_iff below bound within inside] at entry
      refine Eq.trans ?_ (congrArg some entry.symm)
      split
      next same => rw [← found, same]; rfl
      next different =>
        rw [View.slot_publish, if_neg different] at filled
        exact represents.data other below position within filled }

theorem storeSlot {index offset : Nat} (bound : index < view.length)
    (inside : offset < bufferSize)
    (set : view.slot (bufferSize * index + offset) = .SET) :
    Represents (memory.storeSlot (view.buffer index) offset .HANDLED)
      (view.handle (bufferSize * index + offset)) :=
  { represents with
    walk := by
      refine represents.walk_of_filled rfl rfl fun location filled => ?_
      rw [View.slot_handle]
      split
      · exact SlotState.noConfusion
      · exact filled
    slot := by
      intro other below position within
      have entry := update_entry memory.isSet (view.buffer index) (view.buffer other) offset
        position .HANDLED
      rw [represents.slot other below position within] at entry
      simp only [represents.same_slot_iff below bound within inside] at entry
      rw [View.slot_handle]
      exact entry
    data := by
      intro other below position within filled
      refine represents.data other below position within fun empty => filled ?_
      rw [View.slot_handle, if_neg]
      · exact empty
      · intro same
        rw [same, set] at empty
        exact SlotState.noConfusion empty }

theorem deleteGarbage (garbage : Address) : Represents (memory.deleteGarbage garbage) view :=
  { represents with }

theorem deleteHead {index : Nat} {behind : List Nat} (wellFormed : view.WellFormed)
    (whole : view.live = view.headIndex :: index :: behind) :
    Represents (memory.deleteHead (view.buffer index)) (view.moveHead index) := by
  have sorted := wellFormed.sorted
  rw [whole] at sorted
  have above : view.headIndex < index := List.rel_of_pairwise_cons sorted List.mem_cons_self
  have bound := wellFormed.live_lt index (by simp [whole])
  exact { represents with
    headOfQueue := rfl
    head := represents.heads index above bound
    heads := fun other aboveIndex => represents.heads other (above.trans aboveIndex)
    forward := by
      change LinkedList.Forward memory.next (view.live.tail.map view.buffer)
      rw [List.map_tail]
      exact List.IsChain.tail represents.forward
    backward := by
      change LinkedList.Backward memory.prev (view.back.tail.map view.buffer)
      rw [List.map_tail]
      exact List.IsChain.tail represents.backward }

/-- The buffer's slots are freed once it is out of the chain of `next`. -/
theorem discard {index : Nat} (wellFormed : view.WellFormed) (bound : index < view.length)
    (unlinked : index ∉ view.live) : Represents (memory.discard (view.buffer index)) view :=
  { represents with
    forward :=
      represents.forward.update (represents.buffer_notMem bound wellFormed.live_lt unlinked) _
    last := by
      have lastBound := wellFormed.tail_lt
      refine (Function.update_of_ne ?_ ..).trans represents.last
      intro same
      have equal := represents.buffer_injective (by omega) bound same
      exact unlinked (equal ▸ wellFormed.last_mem) }

/-- A new buffer that is not linked yet is not part of the view. -/
theorem newBuffer (wellFormed : view.WellFormed) (tempTail : Address) :
    Represents (memory.newBuffer tempTail) view :=
  have apart {index : Nat} (bound : index < view.length) := represents.newAddress_ne bound
  have headBound := wellFormed.live_lt _ wellFormed.head_mem
  { represents with
    address := fun index bound => Nat.lt_succ_of_lt (represents.address index bound)
    position := fun index bound =>
      (Function.update_of_ne (apart bound) ..).trans (represents.position index bound)
    head := (Function.update_of_ne (apart headBound) ..).trans represents.head
    heads := fun index above bound =>
      (Function.update_of_ne (apart bound) ..).trans (represents.heads index above bound)
    forward := represents.forward.update (represents.newAddress_notMem wellFormed.live_lt) _
    last := by
      have bound := wellFormed.tail_lt
      exact (Function.update_of_ne (apart (by omega)) ..).trans represents.last
    backward := represents.backward.update
      (represents.newAddress_notMem wellFormed.back_lt) _
    walk := by
      intro index above bound
      obtain ⟨before, lower, prev, filled⟩ := represents.walk index above bound
      exact ⟨before, lower, (Function.update_of_ne (apart bound) ..).trans prev, filled⟩
    slot := by
      intro index bound offset inside
      rw [← represents.slot index bound offset inside]
      exact congrFun (Function.update_of_ne (apart bound) ..) offset }

/-- A new buffer is linked behind a buffer that the consumer does not reach any more. -/
theorem linkNext_foreign {index : Nat} (wellFormed : view.WellFormed)
    (bound : index < view.length) (outside : index ∉ view.live) :
    Represents (memory.linkNext (view.buffer index)) view :=
  have base := represents.newBuffer wellFormed (view.buffer index)
  { base with
    forward := base.forward.update (base.buffer_notMem bound wellFormed.live_lt outside) _
    last := by
      have tailBound := wellFormed.tail_lt
      refine (Function.update_of_ne (fun same => outside ?_) ..).trans base.last
      rw [← base.buffer_injective (by omega) bound same]
      exact wellFormed.last_mem }

/-- A new buffer is linked behind the last one. -/
theorem linkNext {index : Nat} (wellFormed : view.WellFormed) (last : index + 1 = view.length)
    (small : view.length + 1 < 2 ^ 32) :
    Represents (memory.linkNext (view.buffer index)) (view.append memory.allocated) := by
  have indexBound : index < view.length := Nat.lt_of_succ_le last.le
  have headBound := wellFormed.live_lt _ wellFormed.head_mem
  have base := represents.newBuffer wellFormed (view.buffer index)
  -- the old buffers keep their addresses, which the new one does not have
  have old {other : Nat} (bound : other < view.length) :
      (view.append memory.allocated).buffer other = view.buffer other :=
    Function.update_of_ne (Nat.ne_of_lt bound) ..
  have added : (view.append memory.allocated).buffer view.length = memory.allocated :=
    Function.update_self ..
  have apart {other : Nat} (bound : other < view.length) := represents.newAddress_ne bound
  have map_append {indices : List Nat} (bounds : ∀ other ∈ indices, other < view.length) :
      (indices ++ [view.length]).map (view.append memory.allocated).buffer =
        indices.map view.buffer ++ [memory.allocated] := by
    rw [List.map_append, List.map_singleton, added]
    congr 1
    exact List.map_congr_left fun other member => old (bounds other member)
  -- the new slots lie behind every slot filled so far
  have unfilled (offset : Nat) : view.slot (bufferSize * view.length + offset) = .EMPTY := by
    by_contra filled
    have reached := wellFormed.written _ filled
    have bound := wellFormed.tail_lt
    simp only [bufferSize] at reached
    omega
  exact {
    address := by
      intro other bound
      rcases Nat.lt_succ_iff_lt_or_eq.mp bound with bound | rfl
      · exact (old bound).symm ▸ base.address other bound
      · exact added.symm ▸ Nat.lt_succ_self _
    position := by
      intro other bound
      rcases Nat.lt_succ_iff_lt_or_eq.mp bound with bound | rfl
      · exact (old bound).symm ▸ base.position other bound
      · rw [added]
        refine (Function.update_self ..).trans ?_
        rw [represents.position index indexBound, last, wrap_of_lt small]
    tail := represents.tail
    tailOfQueue := represents.tailOfQueue.trans (old wellFormed.tail_lt).symm
    headOfQueue := represents.headOfQueue.trans (old headBound).symm
    head := (congrArg _ (old headBound)).trans base.head
    heads := by
      intro other above bound
      rcases Nat.lt_succ_iff_lt_or_eq.mp bound with bound | rfl
      · exact (old bound).symm ▸ base.heads other above bound
      · rw [added]
        exact Function.update_self ..
    forward := by
      obtain ⟨others, whole, outside⟩ := wellFormed.live_concat
      rw [show view.length - 1 = index from by omega] at whole outside
      have forward := base.forward
      change LinkedList.Forward _ ((view.live ++ [view.length]).map _)
      rw [map_append wellFormed.live_lt]
      rw [whole, List.map_append, List.map_singleton] at forward ⊢
      refine forward.append (base.buffer_notMem indexBound ?_ outside)
      exact fun other member => wellFormed.live_lt other (by simp [whole, member])
    last := by
      rw [show (view.append memory.allocated).length - 1 = view.length from rfl, added]
      refine (Function.update_of_ne (apart indexBound).symm ..).trans ?_
      exact Function.update_self ..
    backward := by
      obtain ⟨others, whole, _⟩ := wellFormed.back_concat
      rw [show view.length - 1 = index from by omega] at whole
      have backward := represents.backward
      have outside := represents.newAddress_notMem wellFormed.back_lt
      change LinkedList.Backward _ ((view.back ++ [view.length]).map _)
      rw [map_append wellFormed.back_lt]
      rw [whole, List.map_append, List.map_singleton] at backward outside ⊢
      exact backward.append outside
    walk := by
      intro other above bound
      rcases Nat.lt_succ_iff_lt_or_eq.mp bound with bound | rfl
      · obtain ⟨before, lower, prev, filled⟩ := base.walk other above bound
        rw [old bound]
        exact ⟨before, lower, prev.trans (congrArg some (old (lower.trans bound)).symm), filled⟩
      · rw [added]
        refine ⟨index, indexBound, (Function.update_self ..).trans ?_, fun between => ?_⟩
        · exact congrArg some (old indexBound).symm
        · omega
    slot := by
      intro other bound offset inside
      rcases Nat.lt_succ_iff_lt_or_eq.mp bound with bound | rfl
      · exact (old bound).symm ▸ base.slot other bound offset inside
      · rw [added]
        refine (congrFun (Function.update_self ..) offset).trans ?_
        exact (unfilled offset).symm
    data := by
      intro other bound offset inside filled
      rcases Nat.lt_succ_iff_lt_or_eq.mp bound with bound | rfl
      · exact (old bound).symm ▸ base.data other bound offset inside filled
      · exact absurd (unfilled offset) filled }

/-- The buffer behind a handled one is linked back to the buffer before it. -/
theorem storePrev {front back : List Nat} {first middle last : Nat}
    (wellFormed : view.WellFormed) (whole : view.live = front ++ first :: middle :: last :: back)
    (same : view.back = view.live) (handled : view.Handled middle) :
    Represents (memory.storePrev (view.buffer last) (some (view.buffer first)))
      (view.unlinkBack middle) := by
  have distinct := wellFormed.live_nodup
  have addresses := represents.map_nodup distinct wellFormed.live_lt
  have lastBound := wellFormed.live_lt last (by simp [whole])
  have sorted := wellFormed.sorted
  have backward := represents.backward
  rw [whole] at distinct sorted
  rw [whole, List.map_append, List.map_cons, List.map_cons, List.map_cons] at addresses
  rw [same, whole, List.map_append, List.map_cons, List.map_cons, List.map_cons] at backward
  refine { represents with backward := ?_, walk := ?_ }
  · change LinkedList.Backward _ ((view.back.erase middle).map view.buffer)
    rw [same, whole, erase_middle distinct, List.map_append, List.map_cons, List.map_cons]
    exact backward.unlink addresses
  · intro index above bound
    by_cases atLast : index = last
    · subst atLast
      have order := (List.pairwise_append.mp sorted).2.1
      have lower : first < middle := List.rel_of_pairwise_cons order (by simp)
      have upper : middle < index :=
        List.rel_of_pairwise_cons (List.pairwise_cons.mp order).2 (by simp)
      refine ⟨first, lower.trans upper, Function.update_self .., ?_⟩
      intro between left right offset inside
      have filled : view.slot (bufferSize * between + offset) = .HANDLED := by
        rcases Nat.lt_trichotomy between middle with less | rfl | greater
        · refine wellFormed.handled_between whole ?_ ?_
          · exact Nat.le_add_right_of_le (Nat.mul_le_mul_left _ left)
          · simp only [bufferSize] at inside ⊢
            omega
        · exact handled offset inside
        · have shifted : view.live = (front ++ [first]) ++ middle :: index :: back := by
            simp [whole]
          refine wellFormed.handled_between shifted ?_ ?_
          · exact Nat.le_add_right_of_le (Nat.mul_le_mul_left _ greater)
          · simp only [bufferSize] at inside ⊢
            omega
      exact fun empty => SlotState.noConfusion (filled.symm.trans empty)
    · obtain ⟨before, lower, prev, filled⟩ := represents.walk index above bound
      have different : view.buffer index ≠ view.buffer last := fun equal =>
        atLast (represents.buffer_injective bound lastBound equal)
      exact ⟨before, lower, (Function.update_of_ne different ..).trans prev, filled⟩

/-- The buffer before a handled one is linked to the buffer behind it. -/
theorem storeNext {front back : List Nat} {first middle last : Nat}
    (wellFormed : view.WellFormed)
    (whole : view.live = front ++ first :: middle :: last :: back) :
    Represents (memory.storeNext (view.buffer first) (view.buffer last))
      (view.unlink middle) := by
  have distinct := wellFormed.live_nodup
  have addresses := represents.map_nodup distinct wellFormed.live_lt
  have firstBound := wellFormed.live_lt first (by simp [whole])
  have middleBound := wellFormed.live_lt middle (by simp [whole])
  have sorted := wellFormed.sorted
  have forward := represents.forward
  rw [whole] at distinct sorted
  rw [whole, List.map_append, List.map_cons, List.map_cons, List.map_cons] at addresses forward
  refine { represents with forward := ?_, last := ?_ }
  · change LinkedList.Forward _ ((view.live.erase middle).map view.buffer)
    rw [whole, erase_middle distinct, List.map_append, List.map_cons, List.map_cons]
    exact forward.unlink addresses
  · have lower : first < middle :=
      List.rel_of_pairwise_cons (List.pairwise_append.mp sorted).2.1 (by simp)
    refine (Function.update_of_ne (fun equal => ?_) ..).trans represents.last
    have below : view.length - 1 < view.length := by omega
    have final : view.length - 1 = first := represents.buffer_injective below firstBound equal
    omega

end Writing

end Represents

end MarketSandbox.MPSCQueue
