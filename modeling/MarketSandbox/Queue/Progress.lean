/-
This file proves that the consumer needs nobody: wherever a run has left it inside
dequeue, its own accesses lead it out. What a call still has to do is measured by
where the head stands, by the stage the call has reached, and by what that stage
has left: the list of garbage to delete, the reachable buffers to scan, and the
target of the second scan, which only moves towards the head. Every access makes
less of it, and none of them meets a pointer that is missing.
-/

import Mathlib.Data.Prod.Lex
import MarketSandbox.Queue.Reclamation

namespace MarketSandbox.MPSCQueue

open Transition

variable {Value : Type} {memory after : Memory Value} {pc pcAfter : ConsumerPc Value}
  {view : View Value} {garbage : List Address}

/-- The machine without its producers. -/
def alone (memory : Memory Value) (pc : ConsumerPc Value) : State Empty Value :=
  ⟨memory, fun producer => producer.elim, pc⟩

theorem perform_alone [DecidableEq Value] (step : stepConsumer memory pc = some (after, pcAfter)) :
    perform (alone memory pc) .consumer = some (alone after pcAfter) := by
  simp only [perform, alone, step]

/-! ### What is left of a call -/

/-- The slots from the head on, where every buffer counts for one more than its slots. -/
def View.ahead (view : View Value) : Nat :=
  (bufferSize + 1) * (view.length - view.headIndex) + (bufferSize - view.head)

/-- The stages of a call, counted from its end. -/
def ConsumerPc.stage : ConsumerPc Value → Nat
  | .idle | .returning _ => 0
  | .rescan .. => 1
  | .scan .. | .scanFlag .. | .scanNext _ | .foldTail _ | .foldNext _ | .foldPrev .. | .foldLink ..
  | .foldFree .. => 2
  | .readEmpty => 3
  | .readSet => 4
  | .compareTail => 5
  | .compareBuffer => 6
  | .readHandled => 7
  | .collect .. => 8
  | .moveNext _ => 9
  | .moveTail _ => 10

/-- What the scan has left from a slot on, and from the access within the turn at that slot on. -/
def Memory.scanLeft (memory : Memory Value) (view : View Value) (tempHeadOfQueue : Address)
    (tempHead turn : Nat) : Nat :=
  8 * (bufferSize * view.length - (bufferSize * memory.indexOf tempHeadOfQueue + tempHead)) + turn

/-- What the stage has left. -/
def Memory.stageLeft (memory : Memory Value) (view : View Value) (garbage : List Address) :
    ConsumerPc Value → Nat × Nat
  | .collect .. => (garbage.length, 0)
  | .scan temp head _ _ => (view.live.length, memory.scanLeft view temp head 7)
  | .scanFlag temp head _ _ => (view.live.length, memory.scanLeft view temp head 6)
  | .foldTail temp => (view.live.length, memory.scanLeft view temp (bufferSize - 1) 5)
  | .foldNext temp => (view.live.length, memory.scanLeft view temp (bufferSize - 1) 4)
  | .foldPrev temp _ _ => (view.live.length, memory.scanLeft view temp (bufferSize - 1) 3)
  | .foldLink temp _ _ => (view.live.length, memory.scanLeft view temp (bufferSize - 1) 2)
  | .foldFree .. => (view.live.length, 8 * (bufferSize * view.length) + 8)
  | .scanNext temp => (view.live.length, memory.scanLeft view temp (bufferSize - 1) 1)
  | .rescan temp head scan scanHead =>
    (bufferSize * memory.indexOf temp + head,
      (bufferSize + 1) * (view.length - memory.indexOf scan) + (bufferSize - scanHead))
  | _ => (0, 0)

/-- What a call has left. -/
def Memory.left (memory : Memory Value) (view : View Value) (garbage : List Address)
    (pc : ConsumerPc Value) : Nat ×ₗ Nat ×ₗ Nat ×ₗ Nat :=
  toLex (view.ahead, toLex (pc.stage, toLex (memory.stageLeft view garbage pc)))

section Left

variable {grown : View Value} {remaining : List Address}

/-- The head has moved on. -/
theorem left_of_ahead (moved : grown.ahead < view.ahead) :
    after.left grown remaining pcAfter < memory.left view garbage pc :=
  Prod.Lex.toLex_lt_toLex.mpr (Or.inl moved)

/-- The call has reached the next stage. -/
theorem left_of_stage (still : grown.ahead = view.ahead) (further : pcAfter.stage < pc.stage) :
    after.left grown remaining pcAfter < memory.left view garbage pc :=
  Prod.Lex.toLex_lt_toLex.mpr (Or.inr ⟨still, Prod.Lex.toLex_lt_toLex.mpr (Or.inl further)⟩)

/-- The stage has less left. -/
theorem left_of_stageLeft (still : grown.ahead = view.ahead) (same : pcAfter.stage = pc.stage)
    (less : (after.stageLeft grown remaining pcAfter).1 < (memory.stageLeft view garbage pc).1 ∨
      (after.stageLeft grown remaining pcAfter).1 = (memory.stageLeft view garbage pc).1 ∧
        (after.stageLeft grown remaining pcAfter).2 < (memory.stageLeft view garbage pc).2) :
    after.left grown remaining pcAfter < memory.left view garbage pc :=
  Prod.Lex.toLex_lt_toLex.mpr (Or.inr ⟨still, Prod.Lex.toLex_lt_toLex.mpr
    (Or.inr ⟨same, Prod.Lex.toLex_lt_toLex.mpr less⟩)⟩)

theorem View.WellFormed.ahead_advance (wellFormed : view.WellFormed)
    (inside : view.head < bufferSize) : view.advance.ahead < view.ahead := by
  have bound := wellFormed.live_lt _ wellFormed.head_mem
  simp only [View.ahead, View.advance]
  omega

/-- The head moves from the end of its buffer to the start of a later one. -/
theorem View.WellFormed.ahead_moveHead (wellFormed : view.WellFormed) {index : Nat}
    (member : index ∈ view.live) (above : view.headIndex < index) :
    (view.moveHead index).ahead < view.ahead := by
  have bound := wellFormed.live_lt index member
  have fewer : view.length - index + 1 ≤ view.length - view.headIndex := by omega
  have less := Nat.mul_le_mul_left (bufferSize + 1) fewer
  simp only [View.ahead, View.moveHead, bufferSize] at less ⊢
  omega

end Left

/-! ### Every access leaves less -/

section Step

variable (sound : Sound (alone memory pc) view)
include sound

theorem Sound.scanLeft_eq {index : Nat} (member : index ∈ view.live) (tempHead turn : Nat) :
    memory.scanLeft view (view.buffer index) tempHead turn =
      8 * (bufferSize * view.length - (bufferSize * index + tempHead)) + turn := by
  have known := sound.indexOf_eq (sound.wellFormed.live_lt index member)
  rw [Memory.scanLeft, show memory.indexOf (view.buffer index) = index from known]

variable {remaining : List Address}

/-! ### The move to the next buffer -/

omit sound in
theorem stage_resume_false (caller : Caller Value) : (resume memory caller false).stage = 0 := by
  cases caller <;> rfl

omit sound in
theorem left_moveTail {caller : Caller Value}
    (step : stepConsumer memory (.moveTail caller) = some (after, pcAfter)) :
    after.left view remaining pcAfter < memory.left view garbage (.moveTail caller) := by
  simp only [stepConsumer] at step
  split at step <;> cases step
  · exact left_of_stage rfl ((stage_resume_false caller).trans_lt (by decide : 0 < 10))
  · exact left_of_stage rfl (by decide : 9 < 10)

omit sound in
theorem left_moveNext {caller : Caller Value}
    (step : stepConsumer memory (.moveNext caller) = some (after, pcAfter)) :
    after.left view remaining pcAfter < memory.left view garbage (.moveNext caller) := by
  simp only [stepConsumer] at step
  split at step <;> cases step
  · exact left_of_stage rfl ((stage_resume_false caller).trans_lt (by decide : 0 < 9))
  · exact left_of_stage rfl (by decide : 8 < 9)

/-- The list of garbage becomes shorter, or the head moves on. -/
theorem Sound.left_collect {caller : Caller Value} {behind : Address}
    (holds : (ConsumerPc.collect caller behind).Holds view)
    (linked : LinkedList.Linked memory.next memory.garbageListHead garbage)
    (still : LinkedList.Linked after.next after.garbageListHead remaining)
    (step : stepConsumer memory (.collect caller behind) = some (after, pcAfter)) :
    after.left (view.observeConsumer memory (.collect caller behind)) remaining pcAfter <
      memory.left view garbage (.collect caller behind) := by
  obtain ⟨_, _, _, index, rest, whole, rfl⟩ := holds
  obtain ⟨member, _, above⟩ :=
    sound.follower (show view.live = [] ++ view.headIndex :: index :: rest from whole)
  have indexOf : memory.indexOf (view.buffer index) = index :=
    sound.indexOf_eq (sound.wellFormed.live_lt index member)
  have moved := sound.wellFormed.ahead_moveHead member above
  simp only [stepConsumer] at step
  simp only [View.observeConsumer, indexOf]
  cases list : memory.garbageListHead with
  | none =>
    simp only [list] at step ⊢
    exact left_of_ahead moved
  | some first =>
    simp only [list] at step ⊢
    split at step <;> cases step
    next older =>
      rw [if_pos older]
      cases garbage with
      | nil => exact absurd (list.symm.trans linked) (Option.some_ne_none first)
      | cons other others =>
        obtain rfl := Option.some_inj.mp (list.symm.trans linked.1)
        obtain rfl := LinkedList.Linked.unique linked.2 still
        exact left_of_stageLeft rfl rfl (Or.inl (Nat.lt_succ_self _))
    next notOlder =>
      rw [if_neg notOlder]
      exact left_of_ahead moved

/-! ### The reads of the head slot -/

theorem Sound.left_readHandled
    (holds : (ConsumerPc.readHandled : ConsumerPc Value).Holds view)
    (step : stepConsumer memory .readHandled = some (after, pcAfter)) :
    after.left (view.observeConsumer memory .readHandled) remaining pcAfter <
      memory.left view garbage .readHandled := by
  simp only [stepConsumer] at step
  simp only [View.observeConsumer]
  split at step <;> cases step
  next handled =>
    rw [if_pos handled]
    exact left_of_ahead (sound.wellFormed.ahead_advance holds.2)
  next notHandled =>
    rw [if_neg notHandled]
    exact left_of_stage rfl (by decide : 6 < 7)

omit sound in
theorem left_compareBuffer (step : stepConsumer memory .compareBuffer = some (after, pcAfter)) :
    after.left view remaining pcAfter < memory.left view garbage .compareBuffer := by
  simp only [stepConsumer] at step
  split at step <;> cases step
  · exact left_of_stage rfl (by decide : 5 < 6)
  · exact left_of_stage rfl (by decide : 4 < 6)

omit sound in
theorem left_compareTail (step : stepConsumer memory .compareTail = some (after, pcAfter)) :
    after.left view remaining pcAfter < memory.left view garbage .compareTail := by
  simp only [stepConsumer] at step
  split at step <;> cases step
  · exact left_of_stage rfl (by decide : 0 < 5)
  · exact left_of_stage rfl (by decide : 4 < 5)

theorem Sound.left_readSet (holds : (ConsumerPc.readSet : ConsumerPc Value).Holds view)
    (step : stepConsumer memory .readSet = some (after, pcAfter)) :
    after.left (view.observeConsumer memory .readSet) remaining pcAfter <
      memory.left view garbage .readSet := by
  simp only [stepConsumer] at step
  simp only [View.observeConsumer]
  split at step <;> cases step
  next set =>
    rw [if_pos set]
    exact left_of_ahead (sound.wellFormed.ahead_advance holds.2.1)
  next notSet =>
    rw [if_neg notSet]
    exact left_of_stage rfl (by decide : 3 < 4)

omit sound in
theorem left_readEmpty (step : stepConsumer memory .readEmpty = some (after, pcAfter)) :
    after.left view remaining pcAfter < memory.left view garbage .readEmpty := by
  simp only [stepConsumer] at step
  split at step <;> cases step
  · exact left_of_stage rfl (by decide : 2 < 3)
  · exact left_of_stage rfl (by decide : 0 < 3)

/-! ### The scans -/

omit sound in
theorem left_scan {temp : Address} {head : Nat} {moved allHandled : Bool}
    (step : stepConsumer memory (.scan temp head moved allHandled) = some (after, pcAfter)) :
    after.left view remaining pcAfter <
      memory.left view garbage (.scan temp head moved allHandled) := by
  simp only [stepConsumer] at step
  split at step <;> cases step
  · exact left_of_stage rfl (by decide : 1 < 2)
  · exact left_of_stageLeft rfl rfl (Or.inr ⟨rfl, Nat.lt_succ_self _⟩)

theorem Sound.left_scanFlag {temp : Address} {head : Nat} {moved allHandled : Bool}
    (holds : (ConsumerPc.scanFlag temp head moved allHandled : ConsumerPc Value).Holds view)
    (step : stepConsumer memory (.scanFlag temp head moved allHandled) = some (after, pcAfter)) :
    after.left view remaining pcAfter <
      memory.left view garbage (.scanFlag temp head moved allHandled) := by
  obtain ⟨_, _, index, scanning⟩ := holds
  obtain rfl := scanning.address
  have inside := scanning.inside
  have last (ended : bufferSize ≤ head + 1) : head = bufferSize - 1 := by omega
  simp only [stepConsumer] at step
  split at step
  next ended =>
    split at step <;> cases step
    · refine left_of_stageLeft rfl rfl (Or.inr ⟨rfl, ?_⟩)
      simp only [Memory.stageLeft, Memory.scanLeft, last ended]
      omega
    · refine left_of_stageLeft rfl rfl (Or.inr ⟨rfl, ?_⟩)
      simp only [Memory.stageLeft, Memory.scanLeft, last ended]
      omega
  next more =>
    cases step
    refine left_of_stageLeft rfl rfl (Or.inr ⟨rfl, ?_⟩)
    have bound := sound.wellFormed.live_lt index scanning.member
    simp only [Memory.stageLeft, sound.scanLeft_eq scanning.member, bufferSize] at inside ⊢
    omega

theorem Sound.left_scanNext {temp : Address}
    (holds : (ConsumerPc.scanNext temp : ConsumerPc Value).Holds view)
    (step : stepConsumer memory (.scanNext temp) = some (after, pcAfter)) :
    after.left view remaining pcAfter < memory.left view garbage (.scanNext temp) := by
  obtain ⟨_, _, index, member, rfl⟩ := holds
  have represents : Represents memory view := sound.represents
  simp only [stepConsumer] at step
  by_cases last : index + 1 = view.length
  · have ends := represents.last
    rw [show view.length - 1 = index by omega] at ends
    simp only [ends] at step
    cases step
    exact left_of_stage rfl (by decide : 0 < 2)
  · obtain ⟨before, other, behind, whole, found⟩ :=
      represents.next_of_live sound.wellFormed member last
    obtain ⟨otherMember, notHead, above⟩ := sound.follower whole
    simp only [found] at step
    cases step
    refine left_of_stageLeft rfl rfl (Or.inr ⟨rfl, ?_⟩)
    have bound := sound.wellFormed.live_lt other otherMember
    simp only [Memory.stageLeft, sound.scanLeft_eq member, sound.scanLeft_eq otherMember,
      represents.head_of_live sound.wellFormed otherMember notHead, bufferSize]
    omega

omit sound in
theorem left_foldTail {temp : Address}
    (step : stepConsumer memory (.foldTail temp) = some (after, pcAfter)) :
    after.left view remaining pcAfter < memory.left view garbage (.foldTail temp) := by
  simp only [stepConsumer] at step
  split at step <;> cases step
  · exact left_of_stage rfl (by decide : 0 < 2)
  · exact left_of_stageLeft rfl rfl (Or.inr ⟨rfl, Nat.lt_succ_self _⟩)

omit sound in
theorem left_foldNext {temp : Address}
    (step : stepConsumer memory (.foldNext temp) = some (after, pcAfter)) :
    after.left view remaining pcAfter < memory.left view garbage (.foldNext temp) := by
  simp only [stepConsumer] at step
  split at step <;> cases step
  · exact left_of_stage rfl (by decide : 0 < 2)
  · exact left_of_stageLeft rfl rfl (Or.inr ⟨rfl, Nat.lt_succ_self _⟩)

/-- The folding leaves one reachable buffer less. -/
theorem Sound.left_foldLink {temp behind : Address} {prev : Option Address}
    (holds : (ConsumerPc.foldLink temp behind prev : ConsumerPc Value).Holds view)
    (step : stepConsumer memory (.foldLink temp behind prev) = some (after, pcAfter)) :
    after.left (view.observeConsumer memory (.foldLink temp behind prev)) remaining pcAfter <
      memory.left view garbage (.foldLink temp behind prev) := by
  obtain ⟨_, index, _, _, _, before, first, last, rest, whole, rfl, rfl, rfl⟩ := holds
  have member : index ∈ view.live := by simp [whole]
  simp only [stepConsumer] at step
  cases step
  refine left_of_stageLeft rfl rfl (Or.inl ?_)
  have indexOf : memory.indexOf (view.buffer index) = index :=
    sound.indexOf_eq (sound.wellFormed.live_lt index member)
  have nonempty := List.length_pos_of_mem member
  simp only [View.observeConsumer, indexOf, Memory.stageLeft, View.unlink,
    List.length_erase_of_mem member]
  omega

/-- The second scan arrives, or goes on towards its target, or finds one nearer to the head. -/
theorem Sound.left_rescan {temp scan : Address} {head scanHead : Nat}
    (holds : (ConsumerPc.rescan temp head scan scanHead : ConsumerPc Value).Holds view)
    (step : stepConsumer memory (.rescan temp head scan scanHead) = some (after, pcAfter)) :
    after.left (view.observeConsumer memory (.rescan temp head scan scanHead)) remaining pcAfter <
      memory.left view garbage (.rescan temp head scan scanHead) := by
  obtain ⟨_, inside, target, index, rescanning⟩ := holds
  obtain rfl := rescanning.address
  obtain rfl := rescanning.scanAddress
  have known (number : Nat) (member : number ∈ view.live) :
      memory.indexOf (view.buffer number) = number :=
    sound.indexOf_eq (sound.wellFormed.live_lt number member)
  have targetOf := known target rescanning.member
  have indexOf := known index rescanning.scanMember
  simp only [stepConsumer] at step
  simp only [View.observeConsumer]
  by_cases arrived : view.buffer index = view.buffer target ∧ head ≤ scanHead
  · simp only [if_pos arrived] at step ⊢
    split at step <;> cases step
    next atHead =>
      rw [if_pos atHead]
      exact left_of_ahead (sound.wellFormed.ahead_advance inside)
    next notAtHead =>
      rw [if_neg notAtHead]
      exact left_of_stage rfl (by decide : 0 < 1)
  · simp only [if_neg arrived] at step ⊢
    by_cases full : bufferSize ≤ scanHead
    · obtain ⟨other, above, found, further⟩ := sound.rescan_next rescanning full
      have otherOf := known other further.scanMember
      have otherBound := sound.wellFormed.live_lt other further.scanMember
      have next : memory.next (view.buffer index) = some (view.buffer other) := found
      simp only [if_pos full, next] at step
      cases step
      refine left_of_stageLeft rfl rfl (Or.inr ⟨rfl, ?_⟩)
      simp only [Memory.stageLeft, indexOf, otherOf, bufferSize]
      omega
    · simp only [if_neg full] at step
      split at step <;> cases step
      next set =>
        -- the target moves towards the head
        refine left_of_stageLeft rfl rfl (Or.inl ?_)
        simp only [Memory.stageLeft, targetOf, indexOf]
        exact rescanning.position_lt arrived (Nat.not_le.mp full)
      next notSet =>
        refine left_of_stageLeft rfl rfl (Or.inr ⟨rfl, ?_⟩)
        simp only [Memory.stageLeft, indexOf]
        omega

/-! ### Every access -/

/-- Every access of the consumer leaves less of its call. -/
theorem Sound.left_lt (linked : LinkedList.Linked memory.next memory.garbageListHead garbage)
    (still : LinkedList.Linked after.next after.garbageListHead remaining)
    (step : stepConsumer memory pc = some (after, pcAfter)) :
    after.left (view.observeConsumer memory pc) remaining pcAfter <
      memory.left view garbage pc := by
  have holds : pc.Holds view := sound.consumer
  cases pc with
  | idle => simp only [stepConsumer, reduceCtorEq] at step
  | moveTail => exact left_moveTail step
  | moveNext => exact left_moveNext step
  | collect => exact sound.left_collect holds linked still step
  | readHandled => exact sound.left_readHandled holds step
  | compareBuffer => exact left_compareBuffer step
  | compareTail => exact left_compareTail step
  | readSet => exact sound.left_readSet holds step
  | readEmpty => exact left_readEmpty step
  | scan => exact left_scan step
  | scanFlag => exact sound.left_scanFlag holds step
  | scanNext => exact sound.left_scanNext holds step
  | foldTail => exact left_foldTail step
  | foldNext => exact left_foldNext step
  | foldPrev =>
    cases step
    exact left_of_stageLeft rfl rfl (Or.inr ⟨rfl, Nat.lt_succ_self _⟩)
  | foldLink => exact sound.left_foldLink holds step
  | foldFree =>
    cases step
    refine left_of_stageLeft rfl rfl (Or.inr ⟨rfl, ?_⟩)
    simp only [Memory.stageLeft, Memory.scanLeft, View.observeConsumer]
    omega
  | rescan => exact sound.left_rescan holds step
  | returning => simp only [stepConsumer, reduceCtorEq] at step

end Step

/-! ### The consumer alone -/

section Alone

variable [DecidableEq Value]

/-- Alone, the consumer spares what no producer holds. -/
theorem Reclaiming.step_alone (reclaiming : Reclaiming (alone memory pc) view garbage)
    (sound : Sound (alone memory pc) view) (room : view.Room)
    (step : stepConsumer memory pc = some (after, pcAfter)) :
    ∃ remaining, Reclaiming (alone after pcAfter) (view.observeConsumer memory pc) remaining :=
  reclaiming.step_consumer sound room (fun _ producer => producer.elim) (perform_alone step)

omit [DecidableEq Value] in
/-- The consumer is never stuck inside a call. -/
theorem Sound.stepConsumer_isSome (sound : Sound (alone memory pc) view)
    (calling : pc ≠ .idle) (going : ∀ result, pc ≠ .returning result) :
    ∃ after pcAfter, stepConsumer memory pc = some (after, pcAfter) := by
  have holds : pc.Holds view := sound.consumer
  rw [← Prod.exists (p := fun pair => stepConsumer memory pc = some pair),
    ← Option.isSome_iff_exists]
  cases pc with
  | idle => exact absurd rfl calling
  | returning result => exact absurd rfl (going result)
  | foldLink temp next prev =>
    obtain ⟨_, index, _, _, _, before, first, last, behind, _, _, _, rfl⟩ := holds
    rfl
  | rescan temp head scan scanHead =>
    obtain ⟨_, _, target, index, rescanning⟩ := holds
    simp only [stepConsumer]
    split
    · split <;> rfl
    · split
      next full =>
        obtain ⟨other, _, next, _⟩ := sound.rescan_next rescanning full
        rw [show memory.next scan = some (view.buffer other) from next]
        rfl
      next => split <;> rfl
  | foldPrev => rfl
  | foldFree => rfl
  | collect =>
    simp only [stepConsumer]
    split
    · split <;> rfl
    · rfl
  | scanFlag =>
    simp only [stepConsumer]
    split
    · split <;> rfl
    · rfl
  | _ =>
    simp only [stepConsumer]
    split <;> rfl

omit [DecidableEq Value] in
theorem resume_ne_idle (memory : Memory Value) (caller : Caller Value) (moved : Bool) :
    resume memory caller moved ≠ .idle := by
  cases caller <;> cases moved <;> simp only [resume] <;> (try split) <;> rintro ⟨⟩

omit [DecidableEq Value] in
/-- No access ends a call without its return. -/
theorem stepConsumer_ne_idle (step : stepConsumer memory pc = some (after, pcAfter)) :
    pcAfter ≠ .idle := by
  have resumed := @resume_ne_idle Value
  have called (memory : Memory Value) (caller : Caller Value) :
      moveToNextBuffer memory caller ≠ .idle := by
    rw [moveToNextBuffer]
    split
    · rintro ⟨⟩
    · exact resumed memory caller true
  cases pc <;> simp only [stepConsumer, reduceCtorEq] at step
  case collect =>
    split at step
    · split at step <;> cases step
      · rintro ⟨⟩
      · exact resumed _ _ true
    · cases step
      exact resumed _ _ true
  case scanFlag =>
    split at step
    · split at step <;> cases step <;> rintro ⟨⟩
    · cases step
      rintro ⟨⟩
  case foldPrev =>
    cases step
    rintro ⟨⟩
  case foldFree =>
    cases step
    rintro ⟨⟩
  case rescan =>
    split at step
    · split at step <;> cases step
      · exact called _ _
      · rintro ⟨⟩
    · split at step
      · split at step <;> cases step
        rintro ⟨⟩
      · split at step <;> cases step <;> rintro ⟨⟩
  all_goals
    split at step <;> cases step <;> first | exact resumed _ _ _ | exact called _ _ | rintro ⟨⟩

/-- From a sound state inside a call, the consumer's accesses alone lead to the call's return. -/
theorem Sound.returns (sound : Sound (alone memory pc) view) (room : view.Room)
    (reclaiming : Reclaiming (alone memory pc) view garbage) (calling : pc ≠ .idle) :
    ∃ count last result, consumes count (memory, pc) = some (last, .returning result) := by
  generalize measure : memory.left view garbage pc = effort
  induction effort using WellFoundedLT.induction generalizing memory pc view garbage with
  | ind effort inductionHypothesis =>
    by_cases going : ∀ result, pc ≠ .returning result
    · obtain ⟨after, pcAfter, step⟩ := sound.stepConsumer_isSome calling going
      obtain ⟨soundAfter, consumed⟩ := sound.perform_consumer (perform_alone step)
      obtain ⟨remaining, reclaimingAfter⟩ := reclaiming.step_alone sound room step
      have less := sound.left_lt reclaiming.memory.linked reclaimingAfter.memory.linked step
      have still := stepConsumer_ne_idle step
      have roomAfter : (view.observeConsumer memory pc).Room := by
        rw [View.Room, show (view.observeConsumer memory pc).tailIndex = view.tailIndex from
          consumed.tailIndex]
        exact room
      obtain ⟨count, last, result, rest⟩ :=
        inductionHypothesis _ (measure ▸ less) soundAfter roomAfter reclaimingAfter still rfl
      exact ⟨count + 1, last, result, (consumes_succ count step).trans rest⟩
    · obtain ⟨result, rfl⟩ := not_forall_not.mp going
      exact ⟨0, memory, result, rfl⟩

end Alone

/-! ### Every run -/

section Runs

variable {Producer : Type} {state target : State Producer Value}

/-- The labels of the consumer: the calls of dequeue, their accesses and their returns. -/
def ByConsumer (label : Label Producer Value) : Prop :=
  label = .dequeueCall ∨ label = .consumer ∨ ∃ result, label = .dequeueReturn result

theorem called_byConsumer {drain : List (Label Producer Value)}
    (byConsumer : ∀ label ∈ drain, ByConsumer label) : called drain = [] := by
  refine List.filterMap_eq_nil_iff.mpr fun label member => ?_
  rcases byConsumer label member with rfl | rfl | ⟨result, rfl⟩ <;> rfl

/-- The labels of one call of dequeue. -/
def dequeueLabels (count : Nat) (result : Option Value) : List (Label Producer Value) :=
  .dequeueCall :: (List.replicate count Label.consumer ++ [Label.dequeueReturn result])

theorem dequeueLabels_byConsumer (count : Nat) (result : Option Value) :
    ∀ label ∈ (dequeueLabels count result : List (Label Producer Value)), ByConsumer label := by
  intro label member
  rcases List.mem_cons.mp member with rfl | member
  · exact Or.inl rfl
  · rcases List.mem_append.mp member with member | member
    · exact Or.inr (Or.inl (List.eq_of_mem_replicate member))
    · exact Or.inr (Or.inr ⟨result, List.mem_singleton.mp member⟩)

theorem returned_dequeueLabels (count : Nat) (result : Option Value) :
    returned (dequeueLabels count result : List (Label Producer Value)) = result.toList := by
  have accesses : returned (List.replicate count (.consumer : Label Producer Value)) = [] :=
    List.filterMap_eq_nil_iff.mpr fun label member => by
      rw [List.eq_of_mem_replicate member]
  change returned (List.replicate count Label.consumer ++ [Label.dequeueReturn result]) =
    result.toList
  rw [returned_append, accesses]
  cases result <;> rfl

theorem Sound.alone (sound : Sound state view) :
    Sound (alone state.memory state.consumer) view where
  wellFormed := sound.wellFormed
  represents := sound.represents
  producers producer := producer.elim
  consumer := sound.consumer
  distinct producer := producer.elim

variable [DecidableEq Producer] [DecidableEq Value]

/-- What a producer's access does to the list of garbage, whatever the producers hold. -/
theorem Reclaiming.produce
    (reclaiming : Reclaiming (alone state.memory state.consumer) view garbage)
    (sound : Sound state view) {producer : Producer}
    (produces : view.Produces (view.observe state (.producer producer)))
    (step : perform state (.producer producer) = some target) :
    ∃ extended, Reclaiming (MPSCQueue.alone target.memory target.consumer)
      (view.observe state (.producer producer)) extended := by
  have wellFormed := sound.wellFormed
  have represents := sound.represents
  have holds := sound.producers producer
  obtain ⟨after, pcAfter, next, rfl⟩ := perform_producer step
  rcases stepProducer_links next with ⟨same, unchanged⟩ | ⟨tempTail, unlinked, rfl, grows, observed⟩
  · obtain ⟨length, buffers, live⟩ := unchanged view
    refine ⟨garbage, reclaiming.memory.keep same (produces.keepsBuffers length buffers live),
      fun producer => producer.elim, fun temp behind folding => ?_⟩
    obtain ⟨outside, notDeleted, unfreed⟩ := reclaiming.consumer temp behind folding
    exact ⟨outside, (congrFun same.deleted temp).trans notDeleted,
      (congrFun same.freed temp).trans unfreed⟩
  · obtain ⟨index, reached, rfl, _⟩ := grows view holds
    have below := reached.trans_lt wellFormed.tail_lt
    rw [View.observe, observed, View.observeLink]
    by_cases last : index + 1 = view.length
    · rw [if_pos (by rw [show view.length - 1 = index by omega])]
      exact ⟨garbage, Reclaimed.append wellFormed reclaiming.memory last,
        fun producer => producer.elim, reclaiming.consumer⟩
    · rw [if_neg]
      · obtain ⟨extended, reclaimed, only⟩ :=
          Reclaimed.linkNext_foreign represents wellFormed reclaiming.memory unlinked
        refine ⟨extended, reclaimed, fun producer => producer.elim, fun temp behind folding => ?_⟩
        obtain ⟨outside, kept⟩ := reclaiming.consumer temp behind folding
        refine ⟨fun member => ?_, kept⟩
        have known := sound.consumer
        rw [show state.consumer = .foldFree temp behind from folding] at known
        obtain ⟨_, _, folded, foldedBound, _, rfl, _⟩ := known
        rcases only _ member with member | fresh
        · exact outside member
        · exact represents.newAddress_ne (foldedBound.trans wellFormed.tail_lt) fresh
      · intro same
        have equal := represents.buffer_injective below (by omega) same
        omega

variable [Inhabited Value] {labels : List (Label Producer Value)}

/-- In a run in which no counter wraps the machine is sound, and its list of garbage is finite. -/
theorem collecting_run (run : Run (system.restrict WrapsNothing) labels state) :
    ∃ view garbage, Sound state view ∧ view.Room ∧
      Reclaiming (MPSCQueue.alone state.memory state.consumer) view garbage := by
  refine Run.invariant (fun _ state => ∃ view garbage, Sound state view ∧ view.Room ∧
    Reclaiming (MPSCQueue.alone state.memory state.consumer) view garbage) ?_ ?_ run
  · rintro state rfl
    exact ⟨.initial, [], .start, (by decide : bufferSize * 1 < 2 ^ 32), .start,
      fun producer => producer.elim, fun _ _ here => by cases here⟩
  · rintro labels source label target _ ⟨view, garbage, sound, room, reclaiming⟩ ⟨wraps, step⟩
    obtain ⟨soundAfter, _, roomAfter⟩ := sound.step_of_wraps room wraps step
    have after : ∃ remaining, Reclaiming (MPSCQueue.alone target.memory target.consumer)
        (view.observe source label) remaining := by
      cases label with
      | producer producer =>
        refine reclaiming.produce sound (sound.perform_producer (fun data pc => ?_) room step).2
          step
        exact sound.claims_of_wraps wraps step producer data rfl pc
      | consumer =>
        obtain ⟨memory, pc, next, rfl⟩ := perform_consumer step
        exact reclaiming.step_alone sound.alone room next
      | enqueueCall producer data =>
        obtain ⟨_, rfl⟩ := perform_enqueueCall step
        exact ⟨garbage, reclaiming⟩
      | enqueueReturn producer data =>
        obtain ⟨_, rfl⟩ := perform_enqueueReturn step
        exact ⟨garbage, reclaiming⟩
      | dequeueCall =>
        obtain ⟨_, rfl⟩ := perform_dequeueCall step
        refine ⟨garbage, reclaiming.memory, fun producer => producer.elim, fun temp next here => ?_⟩
        exact absurd here (resume_ne_foldFree source.memory .check true temp next)
      | dequeueReturn result =>
        obtain ⟨_, rfl⟩ := perform_dequeueReturn step
        exact ⟨garbage, reclaiming.memory, fun producer => producer.elim,
          fun _ _ here => by cases here⟩
    obtain ⟨remaining, after⟩ := after
    exact ⟨_, remaining, soundAfter, roomAfter, after⟩

/-- The consumer, left inside a call, returns. -/
theorem returns_alone (run : Run (system.restrict WrapsNothing) labels state)
    (calling : state.consumer ≠ .idle) : ∃ count result last,
      Steps system state (List.replicate count Label.consumer ++ [Label.dequeueReturn result])
        { state with memory := last, consumer := .idle } := by
  obtain ⟨view, garbage, sound, room, reclaiming⟩ := collecting_run run
  obtain ⟨count, last, result, taken⟩ := sound.alone.returns room reclaiming calling
  have returned : perform { state with memory := last, consumer := .returning result }
      (.dequeueReturn result) = some { state with memory := last, consumer := .idle } := by
    simp only [perform, if_true]
  exact ⟨count, result, last, (steps_of_consumes taken).append (.single returned)⟩

/-- Wherever a run in which no counter wraps has left the consumer inside dequeue, its own accesses
lead it to the return of the call, while every producer stays where it is. -/
theorem dequeue_returns_alone (run : Run (system.restrict WrapsNothing) labels state)
    (calling : state.consumer ≠ .idle) : ∃ count result target,
      Run system (labels ++ (List.replicate count Label.consumer ++ [Label.dequeueReturn result]))
        target ∧
        target.consumer = .idle ∧ target.producers = state.producers := by
  obtain ⟨count, result, last, steps⟩ := returns_alone run calling
  exact ⟨count, result, _, run.of_restrict.append steps, rfl, rfl⟩

end Runs

namespace Sample

/-- One producer has claimed a slot and stopped, another one has enqueued a value behind it, and
dequeue has been called. -/
def overtaking : List (Label Bool Nat) :=
  [Label.enqueueCall false 7, .producer false, .enqueueCall true 8] ++
    List.replicate 6 (Label.producer true) ++ [Label.enqueueReturn true 8, .dequeueCall]

/-- Two values have been enqueued. -/
def stored : List (Label Bool Nat) :=
  [Label.enqueueCall false 7] ++ List.replicate 6 (Label.producer false) ++
    [Label.enqueueReturn false 7, .enqueueCall true 8] ++ List.replicate 6 (Label.producer true) ++
    [Label.enqueueReturn true 8]

/-- The state that steps lead to, with what can be checked of it. -/
theorem reached_of_execute {allowed : State Bool Nat → Label Bool Nat → Prop}
    [∀ state label, Decidable (allowed state label)] {property : State Bool Nat → Prop}
    [DecidablePred property] {labels : List (Label Bool Nat)}
    (executed : (execute allowed .start labels).any fun state => decide (property state)) :
    ∃ state, Run (system.restrict allowed) labels state ∧ property state := by
  obtain ⟨state, reached, holds⟩ := Option.any_eq_true .. |>.mp executed
  exact ⟨state, Run.append (.start rfl) (steps_of_execute reached), of_decide_eq_true holds⟩

end Sample

theorem dequeue_returns_alone_sample : ∃ count result, ∃ target : State Bool Nat,
    Run system
      (Sample.overtaking ++ (List.replicate count Label.consumer ++ [Label.dequeueReturn result]))
      target := by
  obtain ⟨state, run, calling⟩ := @Sample.reached_of_execute WrapsNothing _
    (fun state => state.consumer ≠ .idle) _ Sample.overtaking (by decide +kernel)
  obtain ⟨count, result, target, after, _⟩ := dequeue_returns_alone run calling
  exact ⟨count, result, target, after⟩

/-! ### Draining -/

section Draining

variable {Producer : Type} [DecidableEq Producer] [DecidableEq Value] [Inhabited Value]
  {state : State Producer Value} {labels : List (Label Producer Value)}

/-- A call of dequeue made while nothing else happens returns. -/
theorem dequeue_alone (run : Run system labels state) (few : FewEnqueues labels)
    (idle : state.consumer = .idle) : ∃ count result last,
      Steps system state (dequeueLabels count result)
        { state with memory := last, consumer := .idle } := by
  have call : perform state .dequeueCall =
      some { state with consumer := resume state.memory .check true } := by
    rw [perform, idle]
  have called := wrapsNothing_of_few (run.next call)
    (by rwa [FewEnqueues, called_append, show called [.dequeueCall] = [] from rfl,
      List.append_nil])
  obtain ⟨count, result, last, steps⟩ :=
    returns_alone called (resume_ne_idle state.memory .check true)
  exact ⟨count, result, last, .cons call steps⟩

/-- Once no enqueue is in progress, the consumer, by calls of dequeue made one after another, gets
every value that is still in the queue, and then is told that the queue is empty. -/
theorem queue_drains (run : Run system labels state) (few : FewEnqueues labels)
    (distinct : (called labels).Nodup) (quiet : Quiet state) (idle : state.consumer = .idle) :
    ∃ drain target, Run system (labels ++ drain) target ∧ (∀ label ∈ drain, ByConsumer label) ∧
      drain.getLast? = some (.dequeueReturn none) ∧
      (returned (labels ++ drain)).Perm (called labels) := by
  generalize left : (called labels).length - (returned labels).length = missing
  induction missing using Nat.strong_induction_on generalizing labels state with
  | _ missing inductionHypothesis =>
    obtain ⟨count, result, last, steps⟩ := dequeue_alone run few idle
    have after := run.append steps
    have byConsumer : ∀ label ∈ (dequeueLabels count result : List (Label Producer Value)),
        ByConsumer label := dequeueLabels_byConsumer count result
    have sameCalled : called (labels ++ dequeueLabels count result) = called labels := by
      rw [called_append, called_byConsumer byConsumer, List.append_nil]
    have fewAfter : FewEnqueues (labels ++ dequeueLabels count result) := by
      rwa [FewEnqueues, sameCalled]
    have distinctAfter : (called (labels ++ dequeueLabels count result)).Nodup := by
      rwa [sameCalled]
    obtain ⟨inside, distinctReturned⟩ := returned_called after fewAfter distinctAfter
    rw [sameCalled] at inside
    cases result with
    | none =>
      have all := quiet_answer run quiet (fun label => List.eq_of_mem_replicate) steps few
      refine ⟨dequeueLabels count none, _, after, byConsumer, ?_, ?_⟩
      · rw [dequeueLabels, List.getLast?_cons, List.getLast?_concat]
        rfl
      · refine (List.perm_ext_iff_of_nodup distinctReturned distinct).mpr fun data => ?_
        refine ⟨fun member => inside member, fun member => ?_⟩
        rw [returned_append]
        exact List.mem_append_left _ (all member)
    | some data =>
      -- one more value has been returned, so fewer are missing
      have room := distinctReturned.length_le_of_subset inside
      have one : (returned (labels ++ dequeueLabels count (some data))).length =
          (returned labels).length + 1 := by
        rw [returned_append, returned_dequeueLabels, List.length_append]
        rfl
      have less : (called (labels ++ dequeueLabels count (some data))).length -
          (returned (labels ++ dequeueLabels count (some data))).length < missing := by
        rw [sameCalled, one]
        omega
      obtain ⟨drain, target, runAfter, only, ends, perm⟩ :=
        inductionHypothesis _ less after fewAfter distinctAfter quiet rfl rfl
      refine ⟨dequeueLabels count (some data) ++ drain, target, ?_, ?_, ?_, ?_⟩
      · rwa [← List.append_assoc]
      · intro label member
        exact (List.mem_append.mp member).elim (byConsumer label) (only label)
      · rw [List.getLast?_append, ends]
        rfl
      · rw [← List.append_assoc, ← sameCalled]
        exact perm

end Draining

theorem queue_drains_sample : ∃ drain, ∃ target : State Bool Nat,
    Run system (Sample.stored ++ drain) target ∧
      (returned (Sample.stored ++ drain)).Perm [7, 8] := by
  obtain ⟨state, run, quiet, idle⟩ := @Sample.reached_of_execute (fun _ _ => True) _
    (fun state => (∀ producer, state.producers producer = .idle) ∧ state.consumer = .idle) _
    Sample.stored (by decide +kernel)
  obtain ⟨drain, target, after, _, _, perm⟩ :=
    queue_drains run.of_restrict (by decide) (by decide) quiet idle
  exact ⟨drain, target, after, perm⟩

end MarketSandbox.MPSCQueue
