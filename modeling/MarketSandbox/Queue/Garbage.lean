/-
This file follows the buffers that the consumer deletes and those whose slots it
frees. A buffer is deleted once every location up to its end has been filled, its
slots are freed once it has been handled and taken out of the chain, and a buffer
on the list of garbage is neither reachable nor deleted. The list also takes up a
buffer that a producer links behind one that waits there.
-/

import MarketSandbox.Queue.Order

namespace MarketSandbox.MPSCQueue

variable {Value : Type}

/-! ### The buffers that have been deleted or freed -/

/-- What has been deleted and freed, and what waits on the list of garbage. -/
structure Reclaimed (memory : Memory Value) (view : View Value) (garbage : List Address) :
    Prop where
  passed : ∀ index < view.length, memory.deleted (view.buffer index) = true →
    ∀ location < bufferSize * (index + 1), view.slot location ≠ .EMPTY
  live : ∀ index ∈ view.live, memory.deleted (view.buffer index) = false
  handled : ∀ index < view.length, memory.freed (view.buffer index) = true →
    view.Handled index ∧ index ∉ view.live
  fresh : ∀ address, memory.allocated ≤ address →
    memory.deleted address = false ∧ memory.freed address = false
  linked : LinkedList.Linked memory.next memory.garbageListHead garbage
  distinct : garbage.Nodup
  waiting : ∀ address ∈ garbage, address < memory.allocated ∧ memory.deleted address = false ∧
    ∀ index ∈ view.live, address ≠ view.buffer index

/-- Two memories in which the same buffers are deleted, freed and linked. -/
structure Memory.SameBuffers (memory after : Memory Value) : Prop where
  next : after.next = memory.next
  deleted : after.deleted = memory.deleted
  freed : after.freed = memory.freed
  garbageListHead : after.garbageListHead = memory.garbageListHead
  allocated : after.allocated = memory.allocated

/-- A view with the same buffers, of which no more are reachable, and with the slots filled and
handled that were. -/
structure View.KeepsBuffers (view grown : View Value) : Prop where
  length : grown.length = view.length
  buffer : grown.buffer = view.buffer
  live : grown.live ⊆ view.live
  filled : ∀ location, view.slot location ≠ .EMPTY → grown.slot location ≠ .EMPTY
  handled : ∀ location, view.slot location = .HANDLED → grown.slot location = .HANDLED

variable {memory after : Memory Value} {view grown : View Value} {garbage : List Address}

theorem Memory.SameBuffers.refl (memory : Memory Value) : memory.SameBuffers memory :=
  ⟨rfl, rfl, rfl, rfl, rfl⟩

theorem View.KeepsBuffers.refl (view : View Value) : view.KeepsBuffers view :=
  ⟨rfl, rfl, List.Subset.refl _, fun _ filled => filled, fun _ handled => handled⟩

theorem Reclaimed.start [Inhabited Value] :
    Reclaimed (Memory.construct : Memory Value) .initial [] where
  passed _ _ deleted := absurd deleted Bool.false_ne_true
  live _ _ := rfl
  handled _ _ freed := absurd freed Bool.false_ne_true
  fresh _ _ := ⟨rfl, rfl⟩
  linked := rfl
  distinct := List.nodup_nil
  waiting _ member := absurd member List.not_mem_nil

namespace Reclaimed

section Reading

variable (reclaimed : Reclaimed memory view garbage)
include reclaimed

/-- A step that deletes, frees and links nothing. -/
theorem keep (same : memory.SameBuffers after) (kept : view.KeepsBuffers grown) :
    Reclaimed after grown garbage where
  passed index bound deleted location before := by
    rw [kept.length] at bound
    rw [kept.buffer, same.deleted] at deleted
    exact kept.filled location (reclaimed.passed index bound deleted location before)
  live index member := by
    rw [kept.buffer, same.deleted]
    exact reclaimed.live index (kept.live member)
  handled index bound freed := by
    rw [kept.length] at bound
    rw [kept.buffer, same.freed] at freed
    obtain ⟨handled, outside⟩ := reclaimed.handled index bound freed
    exact ⟨fun offset inside => kept.handled _ (handled offset inside),
      fun member => outside (kept.live member)⟩
  fresh address unused := by
    rw [same.allocated] at unused
    rw [same.deleted, same.freed]
    exact reclaimed.fresh address unused
  linked := by
    rw [same.next, same.garbageListHead]
    exact reclaimed.linked
  distinct := reclaimed.distinct
  waiting address member := by
    obtain ⟨used, undeleted, apart⟩ := reclaimed.waiting address member
    rw [same.allocated, same.deleted, kept.buffer]
    exact ⟨used, undeleted, fun index inside => apart index (kept.live inside)⟩

/-- A reachable buffer does not wait on the list of garbage. -/
theorem notMem_of_live {index : Nat} (member : index ∈ view.live) :
    view.buffer index ∉ garbage :=
  fun waiting => (reclaimed.waiting _ waiting).2.2 index member rfl

/-- A buffer with an empty slot, or behind one, has not been deleted. -/
theorem undeleted_of_empty {index location : Nat} (bound : index < view.length)
    (before : location < bufferSize * (index + 1)) (empty : view.slot location = .EMPTY) :
    memory.deleted (view.buffer index) = false :=
  Bool.eq_false_iff.mpr fun deleted => reclaimed.passed index bound deleted location before empty

/-- The slots of a buffer with an empty slot have not been freed. -/
theorem unfreed_of_empty {location : Nat} (bound : location / bufferSize < view.length)
    (empty : view.slot location = .EMPTY) :
    memory.freed (view.buffer (location / bufferSize)) = false := by
  refine Bool.eq_false_iff.mpr fun freed => ?_
  have handled := (reclaimed.handled _ bound freed).1 (location % bufferSize)
    (Nat.mod_lt _ (by decide))
  rw [Nat.div_add_mod, empty] at handled
  exact SlotState.noConfusion handled

/-- The slots of a reachable buffer have not been freed. -/
theorem unfreed_of_live {index : Nat} (bound : index < view.length) (member : index ∈ view.live) :
    memory.freed (view.buffer index) = false :=
  Bool.eq_false_iff.mpr fun freed => (reclaimed.handled index bound freed).2 member

end Reading

/-! ### The accesses that delete, free and link -/

/-- The first buffer on the list of garbage is deleted. -/
theorem deleteGarbage {first : Address} {rest : List Address}
    (reclaimed : Reclaimed memory view (first :: rest))
    (passed : ∀ index < view.length, first = view.buffer index →
      ∀ location < bufferSize * (index + 1), view.slot location ≠ .EMPTY) :
    Reclaimed (memory.deleteGarbage first) view rest := by
  obtain ⟨firstOutside, distinct⟩ := List.nodup_cons.mp reclaimed.distinct
  obtain ⟨used, _, apart⟩ := reclaimed.waiting first List.mem_cons_self
  exact {
    passed := by
      intro index bound deleted
      by_cases same : view.buffer index = first
      · exact passed index bound same.symm
      · exact reclaimed.passed index bound
          ((Function.update_of_ne same ..).symm.trans deleted)
    live := fun index member =>
      (Function.update_of_ne (apart index member).symm ..).trans (reclaimed.live index member)
    handled := reclaimed.handled
    fresh := fun address unused =>
      ⟨(Function.update_of_ne (Nat.ne_of_gt (used.trans_le unused)) ..).trans
        (reclaimed.fresh address unused).1, (reclaimed.fresh address unused).2⟩
    linked := reclaimed.linked.2
    distinct := distinct
    waiting := by
      intro address member
      obtain ⟨used, undeleted, apart⟩ := reclaimed.waiting address (List.mem_cons_of_mem _ member)
      exact ⟨used, (Function.update_of_ne (ne_of_mem_of_not_mem member firstOutside) ..).trans
        undeleted, apart⟩ }

/-- The `next` of a reachable buffer is stored. -/
theorem storeNext (reclaimed : Reclaimed memory view garbage) {index : Nat}
    (member : index ∈ view.live) (next : Address) :
    Reclaimed (memory.storeNext (view.buffer index) next) view garbage :=
  { reclaimed with linked := reclaimed.linked.update (reclaimed.notMem_of_live member) _ }

section Writing

variable (represents : Represents memory view) (wellFormed : view.WellFormed)
include represents wellFormed

/-- The head buffer is deleted. -/
theorem deleteHead (reclaimed : Reclaimed memory view garbage) {index : Nat} {behind : List Nat}
    (full : view.head = bufferSize) (whole : view.live = view.headIndex :: index :: behind) :
    Reclaimed (memory.deleteHead (view.buffer index)) (view.moveHead index) garbage := by
  have headBound := wellFormed.live_lt _ wellFormed.head_mem
  have distinct := wellFormed.live_nodup
  rw [whole] at distinct
  have outside : view.headIndex ∉ view.live.tail := by
    rw [whole]
    exact (List.nodup_cons.mp distinct).1
  have front : view.front = bufferSize * (view.headIndex + 1) := by
    rw [View.front, full, Nat.mul_succ]
  have undeleted {address : Address} (different : address ≠ memory.headOfQueue) :
      (memory.deleteHead (view.buffer index)).deleted address = memory.deleted address :=
    Function.update_of_ne different ..
  exact {
    passed := by
      intro other bound deleted
      by_cases same : view.buffer other = memory.headOfQueue
      · rw [represents.headOfQueue] at same
        obtain rfl := represents.buffer_injective bound headBound same
        rw [← front]
        exact wellFormed.passed
      · exact reclaimed.passed other bound ((undeleted same).symm.trans deleted)
    live := by
      intro other member
      refine (undeleted ?_).trans (reclaimed.live other (List.mem_of_mem_tail member))
      rw [represents.headOfQueue]
      intro same
      have bound := wellFormed.live_lt other (List.mem_of_mem_tail member)
      exact outside (represents.buffer_injective bound headBound same ▸ member)
    handled := by
      intro other bound freed
      obtain ⟨handled, notLive⟩ := reclaimed.handled other bound freed
      exact ⟨handled, fun member => notLive (List.mem_of_mem_tail member)⟩
    fresh := by
      intro address unused
      refine ⟨(undeleted ?_).trans (reclaimed.fresh address unused).1,
        (reclaimed.fresh address unused).2⟩
      rw [represents.headOfQueue]
      exact Nat.ne_of_gt ((represents.address _ headBound).trans_le unused)
    linked := reclaimed.linked
    distinct := reclaimed.distinct
    waiting := by
      intro address member
      obtain ⟨used, notDeleted, apart⟩ := reclaimed.waiting address member
      refine ⟨used, (undeleted ?_).trans notDeleted, ?_⟩
      · rw [represents.headOfQueue]
        exact apart _ wellFormed.head_mem
      · exact fun other member => apart other (List.mem_of_mem_tail member) }

/-- A folded buffer's slots are freed, and it is pushed on the list of garbage. -/
theorem discard (reclaimed : Reclaimed memory view garbage) {index : Nat}
    (bound : index < view.length) (unlinked : index ∉ view.live) (handled : view.Handled index)
    (outside : view.buffer index ∉ garbage)
    (undeleted : memory.deleted (view.buffer index) = false) :
    Reclaimed (memory.discard (view.buffer index)) view (view.buffer index :: garbage) where
  passed := reclaimed.passed
  live := reclaimed.live
  handled := by
    intro other otherBound freed
    by_cases same : view.buffer other = view.buffer index
    · obtain rfl := represents.buffer_injective otherBound bound same
      exact ⟨handled, unlinked⟩
    · exact reclaimed.handled other otherBound ((Function.update_of_ne same ..).symm.trans freed)
  fresh := by
    intro address unused
    refine ⟨(reclaimed.fresh address unused).1, ?_⟩
    exact (Function.update_of_ne (Nat.ne_of_gt ((represents.address index bound).trans_le unused))
      ..).trans (reclaimed.fresh address unused).2
  linked := reclaimed.linked.push outside
  distinct := List.nodup_cons.mpr ⟨outside, reclaimed.distinct⟩
  waiting := by
    intro address member
    rcases List.mem_cons.mp member with rfl | member
    · refine ⟨represents.address index bound, undeleted, fun other inside same => ?_⟩
      obtain rfl := represents.buffer_injective bound (wellFormed.live_lt other inside) same
      exact unlinked inside
    · exact reclaimed.waiting address member

omit represents in
/-- A buffer is linked behind the last one. -/
theorem append (reclaimed : Reclaimed memory view garbage) {index : Nat}
    (last : index + 1 = view.length) :
    Reclaimed (memory.linkNext (view.buffer index)) (view.append memory.allocated) garbage := by
  have member : index ∈ view.live := by
    rw [show index = view.length - 1 by omega]
    exact wellFormed.last_mem
  have old {other : Nat} (bound : other < view.length) :
      (view.append memory.allocated).buffer other = view.buffer other :=
    Function.update_of_ne (Nat.ne_of_lt bound) ..
  have added : (view.append memory.allocated).buffer view.length = memory.allocated :=
    Function.update_self ..
  have unused := reclaimed.fresh memory.allocated le_rfl
  exact {
    passed := by
      intro other bound deleted
      rcases Nat.lt_succ_iff_lt_or_eq.mp bound with bound | rfl
      · exact reclaimed.passed other bound (old bound ▸ deleted)
      · exact absurd (unused.1.symm.trans (added ▸ deleted)) Bool.false_ne_true
    live := by
      intro other inside
      rcases List.mem_append.mp inside with inside | inside
      · rw [old (wellFormed.live_lt other inside)]
        exact reclaimed.live other inside
      · rw [List.mem_singleton.mp inside, added]
        exact unused.1
    handled := by
      intro other bound freed
      rcases Nat.lt_succ_iff_lt_or_eq.mp bound with bound | rfl
      · obtain ⟨handled, outside⟩ := reclaimed.handled other bound (old bound ▸ freed)
        refine ⟨handled, fun inside => ?_⟩
        rcases List.mem_append.mp inside with inside | inside
        · exact outside inside
        · exact Nat.ne_of_lt bound (List.mem_singleton.mp inside)
      · exact absurd (unused.2.symm.trans (added ▸ freed)) Bool.false_ne_true
    fresh := fun address above => reclaimed.fresh address (Nat.le_of_succ_le above)
    linked := by
      have apart := fun waiting => lt_irrefl _ (reclaimed.waiting memory.allocated waiting).1
      exact (reclaimed.linked.update apart none).update (reclaimed.notMem_of_live member) _
    distinct := reclaimed.distinct
    waiting := by
      intro address waiting
      obtain ⟨used, undeleted, apart⟩ := reclaimed.waiting address waiting
      refine ⟨Nat.lt_succ_of_lt used, undeleted, fun other inside => ?_⟩
      rcases List.mem_append.mp inside with inside | inside
      · rw [old (wellFormed.live_lt other inside)]
        exact apart other inside
      · rw [List.mem_singleton.mp inside, added]
        exact Nat.ne_of_lt used }

/-- A buffer linked behind one that the consumer does not reach any more waits behind it on the
list of garbage, where that one waits there. -/
theorem linkNext_foreign (reclaimed : Reclaimed memory view garbage) {index : Nat}
    (unlinked : memory.next (view.buffer index) = none) : ∃ extended,
    Reclaimed (memory.linkNext (view.buffer index)) view extended ∧
      ∀ address ∈ extended, address ∈ garbage ∨ address = memory.allocated := by
  have unused := reclaimed.fresh memory.allocated le_rfl
  have apart := fun waiting => lt_irrefl _ (reclaimed.waiting memory.allocated waiting).1
  have fresh : ∀ address, memory.allocated + 1 ≤ address →
      memory.deleted address = false ∧ memory.freed address = false :=
    fun address above => reclaimed.fresh address (Nat.le_of_succ_le above)
  have waiting : ∀ address ∈ garbage, address < memory.allocated + 1 ∧
      memory.deleted address = false ∧ ∀ other ∈ view.live, address ≠ view.buffer other := by
    intro address member
    obtain ⟨used, undeleted, apart⟩ := reclaimed.waiting address member
    exact ⟨Nat.lt_succ_of_lt used, undeleted, apart⟩
  by_cases member : view.buffer index ∈ garbage
  · refine ⟨garbage ++ [memory.allocated], { reclaimed with
      fresh := fresh
      linked := reclaimed.linked.extend reclaimed.distinct member unlinked apart
      distinct := List.concat_eq_append ▸ reclaimed.distinct.concat apart
      waiting := ?_ }, ?_⟩
    · intro address inside
      rcases List.mem_append.mp inside with inside | inside
      · exact waiting address inside
      · rw [List.mem_singleton.mp inside]
        refine ⟨Nat.lt_succ_self _, unused.1, fun other live => ?_⟩
        exact (represents.newAddress_ne (wellFormed.live_lt other live)).symm
    · intro address inside
      exact (List.mem_append.mp inside).imp_right List.mem_singleton.mp
  · exact ⟨garbage, { reclaimed with
      fresh := fresh
      linked := (reclaimed.linked.update apart none).update member _
      waiting := waiting }, fun _ => Or.inl⟩

end Writing

end Reclaimed

/-! ### The accesses of the threads -/

theorem View.Produces.keepsBuffers (produces : view.Produces grown)
    (length : grown.length = view.length) (buffer : grown.buffer = view.buffer)
    (live : grown.live = view.live) : view.KeepsBuffers grown where
  length := length
  buffer := buffer
  live := live ▸ List.Subset.refl _
  filled := produces.filled
  handled location handled := by
    rw [produces.slot location (by rw [handled]; exact SlotState.noConfusion), handled]

theorem observeExchange_buffers (view : View Value) (memory : Memory Value) (tempTail : Address) :
    (view.observeExchange memory tempTail).length = view.length ∧
      (view.observeExchange memory tempTail).buffer = view.buffer ∧
      (view.observeExchange memory tempTail).live = view.live := by
  rw [View.observeExchange]
  split
  · exact ⟨rfl, rfl, rfl⟩
  · exact ⟨rfl, rfl, rfl⟩

theorem exchangeTail_sameBuffers (memory : Memory Value) (tempTail newBuffer : Address) :
    memory.SameBuffers (memory.exchangeTail tempTail newBuffer) := by
  rw [Memory.exchangeTail]
  split
  · exact ⟨rfl, rfl, rfl, rfl, rfl⟩
  · exact .refl memory

/-- A producer links a buffer, or its access deletes, frees and links nothing. -/
theorem stepProducer_links {pc pcAfter : ProducerPc Value}
    (step : stepProducer memory pc = some (after, pcAfter)) :
    (memory.SameBuffers after ∧ ∀ view : View Value,
      (view.observeProducer memory pc).length = view.length ∧
        (view.observeProducer memory pc).buffer = view.buffer ∧
        (view.observeProducer memory pc).live = view.live) ∨
    ∃ tempTail, memory.next tempTail = none ∧ after = memory.linkNext tempTail ∧
      (∀ view : View Value, pc.Holds view → view.Growable tempTail) ∧
      ∀ view : View Value, view.observeProducer memory pc = view.observeLink memory tempTail := by
  cases pc with
  | idle => simp only [stepProducer, reduceCtorEq] at step
  | returning => simp only [stepProducer, reduceCtorEq] at step
  | exchangeNext data location tempTail =>
    simp only [stepProducer] at step
    split at step
    next unlinked =>
      cases step
      refine Or.inr ⟨tempTail, unlinked, rfl, fun view holds => holds.2, fun view => ?_⟩
      rw [View.observeProducer, if_pos unlinked]
    next next linked =>
      cases step
      refine Or.inl ⟨.refl _, fun view => ?_⟩
      rw [View.observeProducer, if_neg (by rw [linked]; exact Option.some_ne_none next)]
      exact ⟨rfl, rfl, rfl⟩
  | preallocateNext data tempTail =>
    simp only [stepProducer] at step
    split at step
    next unlinked =>
      cases step
      refine Or.inr ⟨tempTail, unlinked, rfl, fun view holds => holds.2, fun view => ?_⟩
      rw [View.observeProducer, if_pos unlinked]
    next next linked =>
      cases step
      refine Or.inl ⟨.refl _, fun view => ?_⟩
      rw [View.observeProducer, if_neg (by rw [linked]; exact Option.some_ne_none next)]
      exact ⟨rfl, rfl, rfl⟩
  | exchangeTail data location tempTail newBuffer =>
    simp only [stepProducer] at step
    cases step
    exact Or.inl ⟨exchangeTail_sameBuffers memory tempTail newBuffer,
      fun view => observeExchange_buffers view memory tempTail⟩
  | preallocateTail data tempTail newBuffer =>
    simp only [stepProducer] at step
    cases step
    exact Or.inl ⟨exchangeTail_sameBuffers memory tempTail newBuffer,
      fun view => observeExchange_buffers view memory tempTail⟩
  | walk data location tempTail isLastBuffer =>
    simp only [stepProducer] at step
    split at step
    · split at step <;> cases step
      exact Or.inl ⟨.refl _, fun view => ⟨rfl, rfl, rfl⟩⟩
    · cases step
      exact Or.inl ⟨.refl _, fun view => ⟨rfl, rfl, rfl⟩⟩
  | claim =>
    simp only [stepProducer] at step
    cases step
    exact Or.inl ⟨⟨rfl, rfl, rfl, rfl, rfl⟩, fun view => ⟨rfl, rfl, rfl⟩⟩
  | loadTail =>
    simp only [stepProducer] at step
    cases step
    exact Or.inl ⟨.refl _, fun view => ⟨rfl, rfl, rfl⟩⟩
  | _ =>
    simp only [stepProducer] at step
    split at step <;> cases step <;>
      exact Or.inl ⟨⟨rfl, rfl, rfl, rfl, rfl⟩, fun view => ⟨rfl, rfl, rfl⟩⟩

theorem resume_ne_foldFree (memory : Memory Value) (caller : Caller Value) (moved : Bool)
    (tempHeadOfQueue next : Address) :
    resume memory caller moved ≠ .foldFree tempHeadOfQueue next := by
  cases caller <;> cases moved <;> simp only [resume] <;> (try split) <;> rintro ⟨⟩

theorem moveToNextBuffer_ne_foldFree (memory : Memory Value) (caller : Caller Value)
    (tempHeadOfQueue next : Address) :
    moveToNextBuffer memory caller ≠ .foldFree tempHeadOfQueue next := by
  rw [moveToNextBuffer]
  split
  · rintro ⟨⟩
  · exact resume_ne_foldFree memory caller true tempHeadOfQueue next

/-- The consumer deletes or folds away a buffer, or its access deletes, frees and links nothing. -/
theorem stepConsumer_reclaims {pc pcAfter : ConsumerPc Value}
    (step : stepConsumer memory pc = some (after, pcAfter)) :
    (memory.SameBuffers after ∧ ∀ tempHeadOfQueue next, pcAfter ≠ .foldFree tempHeadOfQueue next) ∨
      (∃ caller next, pc = .collect caller next) ∨
      (∃ tempHeadOfQueue next prev, pc = .foldLink tempHeadOfQueue next prev) ∨
      ∃ tempHeadOfQueue next, pc = .foldFree tempHeadOfQueue next := by
  have other {pc : ConsumerPc Value} : (∀ tempHeadOfQueue next,
      pc ≠ .foldFree tempHeadOfQueue next) → (memory.SameBuffers memory ∧
      ∀ tempHeadOfQueue next, pc ≠ .foldFree tempHeadOfQueue next) := fun different =>
    ⟨.refl memory, different⟩
  cases pc with
  | collect caller next => exact Or.inr (Or.inl ⟨caller, next, rfl⟩)
  | foldLink tempHeadOfQueue next prev => exact Or.inr (Or.inr (Or.inl ⟨_, next, prev, rfl⟩))
  | foldFree tempHeadOfQueue next => exact Or.inr (Or.inr (Or.inr ⟨_, next, rfl⟩))
  | idle => simp only [stepConsumer, reduceCtorEq] at step
  | returning => simp only [stepConsumer, reduceCtorEq] at step
  | foldPrev =>
    simp only [stepConsumer] at step
    cases step
    exact Or.inl ⟨⟨rfl, rfl, rfl, rfl, rfl⟩, fun _ _ => by rintro ⟨⟩⟩
  | moveTail caller =>
    simp only [stepConsumer] at step
    split at step <;> cases step
    · exact Or.inl (other (resume_ne_foldFree memory caller false))
    · exact Or.inl (other fun _ _ => by rintro ⟨⟩)
  | moveNext caller =>
    simp only [stepConsumer] at step
    split at step <;> cases step
    · exact Or.inl (other (resume_ne_foldFree memory caller false))
    · exact Or.inl (other fun _ _ => by rintro ⟨⟩)
  | readHandled =>
    simp only [stepConsumer] at step
    split at step <;> cases step
    · exact Or.inl ⟨⟨rfl, rfl, rfl, rfl, rfl⟩, moveToNextBuffer_ne_foldFree _ _⟩
    · exact Or.inl (other fun _ _ => by rintro ⟨⟩)
  | readSet =>
    simp only [stepConsumer] at step
    split at step <;> cases step
    · exact Or.inl ⟨⟨rfl, rfl, rfl, rfl, rfl⟩, moveToNextBuffer_ne_foldFree _ _⟩
    · exact Or.inl (other fun _ _ => by rintro ⟨⟩)
  | scanFlag =>
    simp only [stepConsumer] at step
    split at step
    · split at step <;> cases step <;> exact Or.inl (other fun _ _ => by rintro ⟨⟩)
    · cases step
      exact Or.inl (other fun _ _ => by rintro ⟨⟩)
  | rescan =>
    simp only [stepConsumer] at step
    split at step
    · split at step <;> cases step
      · exact Or.inl ⟨⟨rfl, rfl, rfl, rfl, rfl⟩, moveToNextBuffer_ne_foldFree _ _⟩
      · exact Or.inl ⟨⟨rfl, rfl, rfl, rfl, rfl⟩, fun _ _ => by rintro ⟨⟩⟩
    · split at step
      · split at step <;> cases step
        exact Or.inl (other fun _ _ => by rintro ⟨⟩)
      · split at step <;> cases step <;> exact Or.inl (other fun _ _ => by rintro ⟨⟩)
  | _ =>
    -- the accesses that only choose between two ways to go on
    simp only [stepConsumer] at step
    split at step <;> cases step <;> exact Or.inl (other fun _ _ => by rintro ⟨⟩)

/-- No access of the consumer adds a buffer or empties a slot. -/
theorem keepsBuffers_observeConsumer (view : View Value) (memory : Memory Value)
    (pc : ConsumerPc Value) : view.KeepsBuffers (view.observeConsumer memory pc) := by
  have handle (location : Nat) : view.KeepsBuffers (view.handle location) :=
    { View.KeepsBuffers.refl view with
      filled := by
        intro other filled
        rw [View.slot_handle]
        split
        · exact SlotState.noConfusion
        · exact filled
      handled := by
        intro other handled
        rw [View.slot_handle, handled, ite_self] }
  have moveHead (index : Nat) : view.KeepsBuffers (view.moveHead index) :=
    { View.KeepsBuffers.refl view with live := fun _ => List.mem_of_mem_tail }
  cases pc with
  | collect caller next =>
    simp only [View.observeConsumer]
    split
    · split
      · exact .refl view
      · exact moveHead _
    · exact moveHead _
  | readHandled =>
    simp only [View.observeConsumer]
    split
    · exact { View.KeepsBuffers.refl view with }
    · exact .refl view
  | readSet =>
    simp only [View.observeConsumer]
    split
    · exact { View.KeepsBuffers.refl view with }
    · exact .refl view
  | foldPrev => exact { View.KeepsBuffers.refl view with }
  | foldLink => exact { View.KeepsBuffers.refl view with live := List.erase_subset }
  | rescan =>
    simp only [View.observeConsumer]
    split
    · split
      · exact { handle _ with }
      · exact handle _
    · exact .refl view
  | _ => exact .refl view

end MarketSandbox.MPSCQueue
