/-
This file proves that the consumer's accesses keep the machine sound, and with
the producers' that every run with few enough enqueues is sound.
-/

import MarketSandbox.Queue.Soundness

namespace MarketSandbox.MPSCQueue

open Transition

variable {Producer Value : Type} {state : State Producer Value} {view grown : View Value}
  {memory : Memory Value} {pc : ConsumerPc Value}

/-- The consumer's step keeps the machine sound where it learns what it needs next. -/
theorem Sound.step_consumer (sound : Sound state view) (wellFormed : grown.WellFormed)
    (represents : Represents memory grown) (consumes : view.Consumes grown)
    (holds : pc.Holds grown) :
    Sound { state with memory := memory, consumer := pc } grown ∧ view.Consumes grown := by
  refine ⟨⟨wellFormed, represents, fun producer => ?_, holds, sound.distinct⟩, consumes⟩
  exact (sound.producers producer).grow sound.wellFormed consumes.grows
    fun location _ => (consumes.empty_iff location).mpr

/-- The consumer's step that changes neither the memory nor the view. -/
theorem Sound.read_consumer (sound : Sound state view) (holds : pc.Holds view) :
    Sound { state with consumer := pc } view ∧ view.Consumes view :=
  sound.step_consumer sound.wellFormed sound.represents (.refl view) holds

/-! ### The call of `moveToNextBuffer` -/

section Resume

variable (represents : Represents memory view) (same : view.back = view.live)
include represents same

theorem holds_resume (caller : Caller Value) (inside : view.head < bufferSize) :
    (resume memory caller true).Holds view := by
  cases caller with
  | check =>
    rw [resume, represents.head_eq, if_neg (Nat.not_le.mpr inside)]
    exact ⟨same, inside⟩
  | handled => exact ⟨same, inside⟩
  | taken => exact same

omit represents in
theorem holds_resume_false (caller : Caller Value) : (resume memory caller false).Holds view := by
  cases caller with
  | check => exact same
  | handled => exact same
  | taken => exact same

theorem holds_moveToNextBuffer (wellFormed : view.WellFormed) (caller : Caller Value) :
    (moveToNextBuffer memory caller).Holds view := by
  rw [moveToNextBuffer, represents.head_eq]
  split
  next full => exact ⟨same, Nat.le_antisymm wellFormed.head_le full⟩
  next notFull => exact holds_resume represents same caller (Nat.not_le.mp notFull)

end Resume

section Consumer

variable (sound : Sound state view)
include sound

theorem Sound.indexOf_eq {index : Nat} (bound : index < view.length) :
    state.memory.indexOf (view.buffer index) = index := by
  rw [Memory.indexOf, sound.represents.position index bound, Nat.add_sub_cancel]

/-- The deletion of the head buffer. -/
theorem Sound.collect {caller : Caller Value} {next : Address}
    (holds : (ConsumerPc.collect caller next).Holds view) :
    Sound { state with
      memory := state.memory.deleteHead next
      consumer := resume (state.memory.deleteHead next) caller true }
      (view.moveHead (state.memory.indexOf next)) ∧
      view.Consumes (view.moveHead (state.memory.indexOf next)) := by
  obtain ⟨same, full, notLast, index, behind, whole, rfl⟩ := holds
  have bound := sound.wellFormed.live_lt index (by simp [whole])
  rw [sound.indexOf_eq bound]
  have represents := sound.represents.deleteHead sound.wellFormed whole
  refine sound.step_consumer (sound.wellFormed.moveHead full whole same notLast) represents
    ⟨rfl, rfl, rfl, rfl, rfl, fun _ => Iff.rfl⟩ (holds_resume represents ?_ caller ?_)
  · change view.back.tail = view.live.tail
    rw [same]
  · exact (by decide : 0 < bufferSize)

/-- The scan goes on at the start of a buffer behind the head buffer. -/
theorem Sound.scan_start {index : Nat} (inside : view.head < bufferSize)
    (member : index ∈ view.live) (notHead : index ≠ view.headIndex) :
    view.Scanning (view.buffer index) (state.memory.head (view.buffer index)) true true index := by
  have above := sound.wellFormed.head_le_of_mem member
  rw [sound.represents.head_of_live sound.wellFormed member notHead]
  exact {
    member := member
    address := rfl
    inside := by decide
    behind := by
      simp only [View.front, bufferSize] at inside ⊢
      omega
    moved_iff := iff_of_true rfl notHead
    handled := fun _ _ offset before => absurd before (Nat.not_lt_zero offset) }

/-- The buffer that follows another one is reachable and is not the head buffer. -/
theorem Sound.follower {before after : List Nat} {index other : Nat}
    (whole : view.live = before ++ index :: other :: after) :
    other ∈ view.live ∧ other ≠ view.headIndex ∧ index < other := by
  have sorted := sound.wellFormed.sorted
  rw [whole] at sorted
  have above : index < other :=
    List.rel_of_pairwise_cons (List.pairwise_append.mp sorted).2.1 (by simp)
  have member : index ∈ view.live := by simp [whole]
  have lower := sound.wellFormed.head_le_of_mem member
  exact ⟨by simp [whole], by omega, above⟩

/-- Where the second scan ends, everything filled before its target was claimed has been
delivered. -/
theorem Sound.rescan_complete {tempHeadOfQueue scanHeadOfQueue : Address}
    {tempHead scanHead target index : Nat}
    (rescanning : view.Rescanning tempHeadOfQueue tempHead scanHeadOfQueue scanHead target index)
    (arrived : scanHeadOfQueue = tempHeadOfQueue ∧ tempHead ≤ scanHead) :
    (view.handle (bufferSize * target + tempHead)).WellFormed ∧
      Represents (state.memory.storeSlot tempHeadOfQueue tempHead .HANDLED)
        (view.handle (bufferSize * target + tempHead)) := by
  have wellFormed := sound.wellFormed
  have bound := wellFormed.live_lt target rescanning.member
  have same : index = target := by
    refine sound.represents.buffer_injective
      (wellFormed.live_lt index rescanning.scanMember) bound ?_
    rw [← rescanning.scanAddress, ← rescanning.address, arrived.1]
  refine ⟨wellFormed.handle rescanning.set rescanning.behind fun early earlier => ?_, ?_⟩
  · have before := wellFormed.ordered.earlier_lt early _ earlier
    rcases Nat.lt_or_ge early view.front with passed | behind
    · exact (wellFormed.delivered early).mpr (Or.inl passed)
    · have reached : early < bufferSize * index + scanHead := by
        rw [same]
        exact before.trans_le (Nat.add_le_add_left arrived.2 _)
      have notSet := rescanning.checked early behind reached earlier
      have notEmpty := wellFormed.earlier_filled earlier
      refine (wellFormed.delivered early).mpr (Or.inr ?_)
      cases slot : view.slot early with
      | EMPTY => exact absurd slot notEmpty
      | SET => exact absurd slot notSet
      | HANDLED => rfl
  · rw [rescanning.address]
    exact sound.represents.storeSlot bound rescanning.inside rescanning.set

/-- A buffer behind the head buffer that has been handled lies before the tail or is it. -/
theorem Sound.foldable_le {address : Address} {index : Nat}
    (foldable : view.Foldable address index) : index ≤ view.tailIndex := by
  have reached := sound.wellFormed.written (bufferSize * index + 0) (by
    rw [foldable.2.2.2 0 (by decide)]
    exact SlotState.noConfusion)
  rwa [Nat.add_zero, Nat.mul_div_cancel_left _ (by decide)] at reached

/-- The pointers around a buffer about to be folded. -/
theorem Sound.foldNext {address : Address} {index : Nat} (bound : index < view.tailIndex)
    (foldable : view.Foldable address index) (same : view.back = view.live) :
    ∃ next, state.memory.next address = some next ∧
      view.Folding address next (state.memory.prev address) index := by
  obtain ⟨member, rfl, notHead, handled⟩ := foldable
  have tailBound := sound.wellFormed.tail_lt
  obtain ⟨before, last, after, whole, next⟩ :=
    sound.represents.next_of_live sound.wellFormed member (by omega)
  rcases List.eq_nil_or_concat before with rfl | ⟨before, first, rfl⟩
  · obtain ⟨behind, start⟩ := sound.wellFormed.first
    rw [start] at whole
    exact absurd (List.cons.inj whole).1.symm notHead
  · rw [List.concat_eq_append, List.append_assoc, List.singleton_append] at whole
    refine ⟨view.buffer last, next, bound, handled, before, first, last, after, whole, rfl, rfl, ?_⟩
    exact sound.represents.prev_of_live (same ▸ whole)

/-- The second scan moves on to the next buffer. -/
theorem Sound.rescan_next {tempHeadOfQueue scanHeadOfQueue : Address}
    {tempHead scanHead target index : Nat}
    (rescanning : view.Rescanning tempHeadOfQueue tempHead scanHeadOfQueue scanHead target index)
    (full : bufferSize ≤ scanHead) :
    ∃ other, index < other ∧ state.memory.next scanHeadOfQueue = some (view.buffer other) ∧
      view.Rescanning tempHeadOfQueue tempHead (view.buffer other)
        (state.memory.head (view.buffer other)) target other := by
  have wellFormed := sound.wellFormed
  obtain ⟨member, address, tempInside, set, behind, scanMember, scanAddress, scanInside,
    scanBehind, position, checked⟩ := rescanning
  have below : index < target := by
    simp only [bufferSize] at full tempInside position
    omega
  have targetBound := wellFormed.live_lt target member
  obtain ⟨before, other, after, whole, next⟩ :=
    sound.represents.next_of_live wellFormed scanMember (by omega)
  obtain ⟨otherMember, notHead, above⟩ := sound.follower whole
  have otherLe : other ≤ target := by
    by_contra beyond
    have sorted := wellFormed.sorted
    rw [whole] at sorted member
    obtain ⟨_, rest, apart⟩ := List.pairwise_append.mp sorted
    rcases List.mem_append.mp member with inFront | member
    · exact absurd (apart target inFront index (by simp)) (Nat.not_lt.mpr below.le)
    · rcases List.mem_cons.mp member with same | member
      · exact absurd same (Nat.ne_of_gt below)
      · rcases List.mem_cons.mp member with same | member
        · exact beyond same.ge
        · have later := List.rel_of_pairwise_cons (List.pairwise_cons.mp rest).2 member
          exact beyond later.le
  have exactly : scanHead = bufferSize := Nat.le_antisymm scanInside full
  refine ⟨other, above, scanAddress ▸ next, ?_⟩
  rw [sound.represents.head_of_live wellFormed otherMember notHead]
  exact {
    member := member
    address := address
    inside := tempInside
    set := set
    behind := behind
    scanMember := otherMember
    scanAddress := rfl
    scanInside := Nat.zero_le _
    scanBehind := by
      rw [exactly, ← Nat.mul_succ] at scanBehind
      exact scanBehind.trans (Nat.mul_le_mul_left _ above)
    position := by
      have lower := Nat.mul_le_mul_left bufferSize otherLe
      exact lower.trans (Nat.le_add_right _ _)
    checked := by
      intro location behindFront beforeScan earlier
      rcases Nat.lt_or_ge location (bufferSize * index + scanHead) with passed | jumped
      · exact checked location behindFront passed earlier
      · rw [exactly, ← Nat.mul_succ] at jumped
        rw [wellFormed.handled_between whole jumped beforeScan]
        exact SlotState.noConfusion }

/-- Where the first scan finds a value, the second one starts at the head. -/
theorem Sound.rescan_start {tempHeadOfQueue : Address} {tempHead index : Nat}
    (member : index ∈ view.live) (address : tempHeadOfQueue = view.buffer index)
    (inside : tempHead < bufferSize) (behind : view.front ≤ bufferSize * index + tempHead)
    (set : view.slot (bufferSize * index + tempHead) = .SET) :
    view.Rescanning tempHeadOfQueue tempHead state.memory.headOfQueue
      (state.memory.head state.memory.headOfQueue) index view.headIndex := by
  rw [sound.represents.head_eq]
  exact {
    member := member
    address := address
    inside := inside
    set := set
    behind := behind
    scanMember := sound.wellFormed.head_mem
    scanAddress := sound.represents.headOfQueue
    scanInside := sound.wellFormed.head_le
    scanBehind := le_rfl
    position := behind
    checked := fun location behind before => absurd before (Nat.not_lt.mpr behind) }

/-! ### The accesses of the consumer -/

/-- What a step of the consumer leaves: a sound machine, of which it has only consumed. -/
def Consumed (state : State Producer Value) (view : View Value) (pc : ConsumerPc Value)
    (after : Memory Value) (next : ConsumerPc Value) : Prop :=
  Sound { state with memory := after, consumer := next } (view.observeConsumer state.memory pc) ∧
    view.Consumes (view.observeConsumer state.memory pc)

variable {after : Memory Value} {next : ConsumerPc Value}

theorem Sound.step_moveTail {caller : Caller Value}
    (holds : (ConsumerPc.moveTail caller).Holds view)
    (step : stepConsumer state.memory (.moveTail caller) = some (after, next)) :
    Consumed state view (.moveTail caller) after next := by
  obtain ⟨same, full⟩ := holds
  have wellFormed := sound.wellFormed
  have headBound := wellFormed.live_lt _ wellFormed.head_mem
  simp only [stepConsumer, sound.represents.headOfQueue,
    sound.represents.tailOfQueue_eq_iff wellFormed headBound] at step
  split at step <;> cases step
  next last => exact sound.read_consumer (holds_resume_false same caller)
  next notLast =>
    exact sound.read_consumer ⟨same, full, lt_of_le_of_ne wellFormed.head_le_tail notLast⟩

theorem Sound.step_moveNext {caller : Caller Value}
    (holds : (ConsumerPc.moveNext caller).Holds view)
    (step : stepConsumer state.memory (.moveNext caller) = some (after, next)) :
    Consumed state view (.moveNext caller) after next := by
  obtain ⟨same, full, notLast⟩ := holds
  obtain ⟨index, behind, whole, found⟩ := sound.represents.next_of_head sound.wellFormed notLast
  simp only [stepConsumer, found] at step
  cases step
  exact sound.read_consumer ⟨same, full, notLast, index, behind, whole, rfl⟩

theorem Sound.step_collect {caller : Caller Value} {behind : Address}
    (holds : (ConsumerPc.collect caller behind).Holds view)
    (step : stepConsumer state.memory (.collect caller behind) = some (after, next)) :
    Consumed state view (.collect caller behind) after next := by
  simp only [stepConsumer] at step
  simp only [Consumed, View.observeConsumer]
  cases garbage : state.memory.garbageListHead with
  | none =>
    simp only [garbage] at step ⊢
    cases step
    exact sound.collect holds
  | some address =>
    simp only [garbage] at step ⊢
    split at step <;> cases step
    next older =>
      rw [if_pos older]
      exact sound.step_consumer sound.wellFormed (sound.represents.deleteGarbage address)
        (.refl view) holds
    next notOlder =>
      rw [if_neg notOlder]
      exact sound.collect holds

theorem Sound.step_readHandled (holds : (ConsumerPc.readHandled : ConsumerPc Value).Holds view)
    (step : stepConsumer state.memory .readHandled = some (after, next)) :
    Consumed state view .readHandled after next := by
  obtain ⟨same, inside⟩ := holds
  have slot := sound.represents.front_slot sound.wellFormed inside
  simp only [stepConsumer, slot] at step
  simp only [Consumed, View.observeConsumer, slot]
  split at step <;> cases step
  next handled =>
    rw [if_pos handled]
    have advanced := sound.wellFormed.advance inside handled
    exact sound.step_consumer advanced sound.represents.advanceHead
      ⟨rfl, rfl, rfl, rfl, rfl, fun _ => Iff.rfl⟩
      (holds_moveToNextBuffer sound.represents.advanceHead same advanced .handled)
  next notHandled =>
    rw [if_neg notHandled]
    exact sound.read_consumer ⟨same, inside, notHandled⟩

theorem Sound.step_compareBuffer
    (holds : (ConsumerPc.compareBuffer : ConsumerPc Value).Holds view)
    (step : stepConsumer state.memory .compareBuffer = some (after, next)) :
    Consumed state view .compareBuffer after next := by
  simp only [stepConsumer] at step
  split at step <;> cases step
  · exact sound.read_consumer holds
  · exact sound.read_consumer holds

theorem Sound.step_compareTail (holds : (ConsumerPc.compareTail : ConsumerPc Value).Holds view)
    (step : stepConsumer state.memory .compareTail = some (after, next)) :
    Consumed state view .compareTail after next := by
  simp only [stepConsumer] at step
  split at step <;> cases step
  · exact sound.read_consumer holds.1
  · exact sound.read_consumer holds

theorem Sound.step_readSet (holds : (ConsumerPc.readSet : ConsumerPc Value).Holds view)
    (step : stepConsumer state.memory .readSet = some (after, next)) :
    Consumed state view .readSet after next := by
  obtain ⟨same, inside, notHandled⟩ := holds
  have slot := sound.represents.front_slot sound.wellFormed inside
  simp only [stepConsumer, slot] at step
  simp only [Consumed, View.observeConsumer, slot]
  split at step <;> cases step
  next set =>
    rw [if_pos set]
    have advanced := sound.wellFormed.take inside set
    exact sound.step_consumer advanced sound.represents.advanceHead_take
      ⟨rfl, rfl, rfl, rfl, rfl, fun _ => Iff.rfl⟩
      (holds_moveToNextBuffer sound.represents.advanceHead_take same advanced _)
  next notSet =>
    rw [if_neg notSet]
    exact sound.read_consumer ⟨same, inside, notHandled⟩

theorem Sound.step_readEmpty (holds : (ConsumerPc.readEmpty : ConsumerPc Value).Holds view)
    (step : stepConsumer state.memory .readEmpty = some (after, next)) :
    Consumed state view .readEmpty after next := by
  obtain ⟨same, inside, notHandled⟩ := holds
  simp only [stepConsumer] at step
  split at step <;> cases step
  next empty =>
    refine sound.read_consumer ⟨same, inside, view.headIndex, ?_⟩
    rw [sound.represents.head_eq]
    exact {
      member := sound.wellFormed.head_mem
      address := sound.represents.headOfQueue
      inside := inside
      behind := le_rfl
      moved_iff := iff_of_false Bool.noConfusion (not_not_intro rfl)
      handled := fun moved => Bool.noConfusion moved }
  next notEmpty => exact sound.read_consumer same

/-! ### The first scan -/

theorem Sound.step_scan {tempHeadOfQueue : Address} {tempHead : Nat} {moved allHandled : Bool}
    (holds : (ConsumerPc.scan tempHeadOfQueue tempHead moved allHandled :
      ConsumerPc Value).Holds view)
    (step : stepConsumer state.memory (.scan tempHeadOfQueue tempHead moved allHandled) =
      some (after, next)) :
    Consumed state view (.scan tempHeadOfQueue tempHead moved allHandled) after next := by
  obtain ⟨same, inside, index, scanning⟩ := holds
  have bound := sound.wellFormed.live_lt index scanning.member
  have slot := sound.represents.slot index bound tempHead scanning.inside
  rw [← scanning.address] at slot
  simp only [stepConsumer, slot] at step
  split at step <;> cases step
  next set =>
    exact sound.read_consumer ⟨same, inside, index, view.headIndex,
      sound.rescan_start scanning.member scanning.address scanning.inside scanning.behind set⟩
  next notSet => exact sound.read_consumer ⟨same, inside, index, scanning⟩

omit sound in
/-- What the scan has seen of a buffer, with the slot at hand. -/
theorem View.Scanning.handled_upto {tempHeadOfQueue : Address} {tempHead index : Nat}
    {moved allHandled : Bool}
    (scanning : view.Scanning tempHeadOfQueue tempHead moved allHandled index)
    (flag : (allHandled && decide (view.slot (bufferSize * index + tempHead) = .HANDLED)) = true)
    (isMoved : moved = true) {offset : Nat} (upto : offset ≤ tempHead) :
    view.slot (bufferSize * index + offset) = .HANDLED := by
  obtain ⟨all, this⟩ := Bool.and_eq_true_iff.mp flag
  rcases upto.lt_or_eq with before | rfl
  · exact scanning.handled isMoved all offset before
  · exact of_decide_eq_true this

theorem Sound.step_scanFlag {tempHeadOfQueue : Address} {tempHead : Nat}
    {moved allHandled : Bool}
    (holds : (ConsumerPc.scanFlag tempHeadOfQueue tempHead moved allHandled :
      ConsumerPc Value).Holds view)
    (step : stepConsumer state.memory (.scanFlag tempHeadOfQueue tempHead moved allHandled) =
      some (after, next)) :
    Consumed state view (.scanFlag tempHeadOfQueue tempHead moved allHandled) after next := by
  obtain ⟨same, inside, index, scanning⟩ := holds
  have bound := sound.wellFormed.live_lt index scanning.member
  have slot := sound.represents.slot index bound tempHead scanning.inside
  rw [← scanning.address] at slot
  simp only [stepConsumer, slot] at step
  split at step
  next ended =>
    split at step <;> cases step
    next fold =>
      obtain ⟨flag, isMoved⟩ := Bool.and_eq_true_iff.mp fold
      exact sound.read_consumer ⟨same, inside, index, scanning.member, scanning.address,
        scanning.moved_iff.mp isMoved,
        fun offset before => scanning.handled_upto flag isMoved (by omega)⟩
    next => exact sound.read_consumer ⟨same, inside, index, scanning.member, scanning.address⟩
  next more =>
    cases step
    exact sound.read_consumer ⟨same, inside, index, { scanning with
      inside := Nat.not_le.mp more
      behind := scanning.behind.trans (Nat.le_succ _)
      handled := fun isMoved flag offset before =>
        scanning.handled_upto flag isMoved (Nat.lt_succ_iff.mp before) }⟩

theorem Sound.step_scanNext {tempHeadOfQueue : Address}
    (holds : (ConsumerPc.scanNext tempHeadOfQueue : ConsumerPc Value).Holds view)
    (step : stepConsumer state.memory (.scanNext tempHeadOfQueue) = some (after, next)) :
    Consumed state view (.scanNext tempHeadOfQueue) after next := by
  obtain ⟨same, inside, index, member, rfl⟩ := holds
  simp only [stepConsumer] at step
  by_cases last : index + 1 = view.length
  · have ends := sound.represents.last
    rw [show view.length - 1 = index by omega] at ends
    simp only [ends] at step
    cases step
    exact sound.read_consumer same
  · obtain ⟨before, other, behind, whole, found⟩ :=
      sound.represents.next_of_live sound.wellFormed member last
    obtain ⟨otherMember, notHead, _⟩ := sound.follower whole
    simp only [found] at step
    cases step
    exact sound.read_consumer ⟨same, inside, other, sound.scan_start inside otherMember notHead⟩

/-! ### The folding of a buffer -/

theorem Sound.step_foldTail {tempHeadOfQueue : Address}
    (holds : (ConsumerPc.foldTail tempHeadOfQueue : ConsumerPc Value).Holds view)
    (step : stepConsumer state.memory (.foldTail tempHeadOfQueue) = some (after, next)) :
    Consumed state view (.foldTail tempHeadOfQueue) after next := by
  obtain ⟨same, inside, index, foldable⟩ := holds
  have bound := sound.wellFormed.live_lt index foldable.1
  simp only [stepConsumer, foldable.2.1,
    sound.represents.tailOfQueue_eq_iff sound.wellFormed bound] at step
  split at step <;> cases step
  next last => exact sound.read_consumer same
  next notLast =>
    exact sound.read_consumer ⟨same, inside, index,
      lt_of_le_of_ne (sound.foldable_le foldable) notLast, foldable.2.1 ▸ foldable⟩

theorem Sound.step_foldNext {tempHeadOfQueue : Address}
    (holds : (ConsumerPc.foldNext tempHeadOfQueue : ConsumerPc Value).Holds view)
    (step : stepConsumer state.memory (.foldNext tempHeadOfQueue) = some (after, next)) :
    Consumed state view (.foldNext tempHeadOfQueue) after next := by
  obtain ⟨same, inside, index, bound, foldable⟩ := holds
  obtain ⟨behind, found, folding⟩ := sound.foldNext bound foldable same
  simp only [stepConsumer, found] at step
  cases step
  exact sound.read_consumer ⟨same, inside, index, folding⟩

theorem Sound.step_foldPrev {tempHeadOfQueue behind : Address} {prev : Option Address}
    (holds : (ConsumerPc.foldPrev tempHeadOfQueue behind prev : ConsumerPc Value).Holds view)
    (step : stepConsumer state.memory (.foldPrev tempHeadOfQueue behind prev) =
      some (after, next)) :
    Consumed state view (.foldPrev tempHeadOfQueue behind prev) after next := by
  obtain ⟨same, inside, index, folding⟩ := holds
  obtain ⟨bound, handled, front, first, last, back, whole, rfl, rfl, rfl⟩ := folding
  have wellFormed := sound.wellFormed
  simp only [stepConsumer] at step
  cases step
  rw [Consumed, View.observeConsumer, sound.indexOf_eq (bound.trans wellFormed.tail_lt)]
  refine sound.step_consumer (wellFormed.unlinkBack bound)
    (sound.represents.storePrev wellFormed whole same handled)
    ⟨rfl, rfl, rfl, rfl, rfl, fun _ => Iff.rfl⟩
    ⟨inside, index, ?_, bound, handled, front, first, last, back, whole, rfl, rfl, rfl⟩
  rw [View.unlinkBack, same]

theorem Sound.step_foldLink {tempHeadOfQueue behind : Address} {prev : Option Address}
    (holds : (ConsumerPc.foldLink tempHeadOfQueue behind prev : ConsumerPc Value).Holds view)
    (step : stepConsumer state.memory (.foldLink tempHeadOfQueue behind prev) =
      some (after, next)) :
    Consumed state view (.foldLink tempHeadOfQueue behind prev) after next := by
  obtain ⟨inside, index, unlinked, folding⟩ := holds
  obtain ⟨bound, handled, front, first, last, back, whole, rfl, rfl, rfl⟩ := folding
  have wellFormed := sound.wellFormed
  simp only [stepConsumer] at step
  cases step
  rw [Consumed, View.observeConsumer, sound.indexOf_eq (bound.trans wellFormed.tail_lt)]
  have distinct := wellFormed.live_nodup
  have shifted : view.live = (front ++ [first]) ++ index :: last :: back := by simp [whole]
  have notHead : index ≠ view.headIndex := (sound.follower whole).2.1
  obtain ⟨lastMember, lastNotHead, above⟩ := sound.follower shifted
  refine sound.step_consumer (wellFormed.unlink notHead bound handled unlinked)
    (sound.represents.storeNext wellFormed whole) ⟨rfl, rfl, rfl, rfl, rfl, fun _ => Iff.rfl⟩
    ⟨unlinked, inside, index, bound, distinct.not_mem_erase, rfl, handled, last, ?_,
      lastNotHead, rfl⟩
  exact (List.mem_erase_of_ne (Nat.ne_of_gt above)).mpr lastMember

theorem Sound.step_foldFree {tempHeadOfQueue behind : Address}
    (holds : (ConsumerPc.foldFree tempHeadOfQueue behind : ConsumerPc Value).Holds view)
    (step : stepConsumer state.memory (.foldFree tempHeadOfQueue behind) = some (after, next)) :
    Consumed state view (.foldFree tempHeadOfQueue behind) after next := by
  obtain ⟨same, inside, index, bound, outside, rfl, handled, last, member, notHead, rfl⟩ := holds
  have wellFormed := sound.wellFormed
  simp only [stepConsumer] at step
  cases step
  exact sound.step_consumer wellFormed
    (sound.represents.discard wellFormed (bound.trans wellFormed.tail_lt) outside) (.refl view)
    ⟨same, inside, last, sound.scan_start inside member notHead⟩

/-! ### The second scan -/

section Rescan

variable {tempHeadOfQueue scanHeadOfQueue : Address} {tempHead scanHead target index : Nat}
  (inside : view.head < bufferSize)
  (rescanning : view.Rescanning tempHeadOfQueue tempHead scanHeadOfQueue scanHead target index)
include inside rescanning

/-- The second scan ends at the head: the value is taken and the head goes on. -/
theorem Sound.rescan_atHead (same : view.back = view.live)
    (arrived : scanHeadOfQueue = tempHeadOfQueue ∧ tempHead ≤ scanHead)
    (atHead : tempHeadOfQueue = state.memory.headOfQueue ∧
      tempHead = state.memory.head state.memory.headOfQueue) (caller : Caller Value) :
    Sound { state with
      memory := (state.memory.storeSlot tempHeadOfQueue tempHead .HANDLED).advanceHead
      consumer := moveToNextBuffer
        (state.memory.storeSlot tempHeadOfQueue tempHead .HANDLED).advanceHead caller }
      (view.handle (bufferSize * target + tempHead)).advance ∧
      view.Consumes (view.handle (bufferSize * target + tempHead)).advance := by
  obtain ⟨wellFormed, represents⟩ := sound.rescan_complete rescanning arrived
  have consumes := View.consumes_handle rescanning.set
  have front : bufferSize * target + tempHead = view.front := by
    have targetBound := sound.wellFormed.live_lt target rescanning.member
    have headBound := sound.wellFormed.live_lt _ sound.wellFormed.head_mem
    rw [View.front, atHead.2, sound.represents.head_eq]
    congr 2
    refine sound.represents.buffer_injective targetBound headBound ?_
    rw [← rescanning.address, atHead.1, sound.represents.headOfQueue]
  rw [front] at wellFormed represents consumes ⊢
  have advanced := wellFormed.advance inside (by
    change (view.handle view.front).slot view.front = .HANDLED
    rw [View.slot_handle, if_pos rfl])
  exact sound.step_consumer advanced represents.advanceHead
    ⟨rfl, rfl, rfl, rfl, rfl, consumes.empty_iff⟩
    (holds_moveToNextBuffer represents.advanceHead same advanced _)

omit sound inside in
/-- Where the second scan has not arrived, it stands before its target. -/
theorem View.Rescanning.position_lt
    (notArrived : ¬ (scanHeadOfQueue = tempHeadOfQueue ∧ tempHead ≤ scanHead))
    (scanInside : scanHead < bufferSize) :
    bufferSize * index + scanHead < bufferSize * target + tempHead := by
  have position := rescanning.position
  have tempInside := rescanning.inside
  have apart : index ≠ target ∨ scanHead < tempHead := by
    by_contra arrivedHere
    obtain ⟨sameBuffer, reached⟩ := not_or.mp arrivedHere
    refine notArrived ⟨?_, Nat.not_lt.mp reached⟩
    rw [rescanning.scanAddress, rescanning.address, not_not.mp sameBuffer]
  simp only [bufferSize] at position tempInside scanInside ⊢
  omega

omit sound inside in
/-- The second scan goes on past a slot that holds no value. -/
theorem View.Rescanning.past
    (notArrived : ¬ (scanHeadOfQueue = tempHeadOfQueue ∧ tempHead ≤ scanHead))
    (scanInside : scanHead < bufferSize)
    (notSet : view.slot (bufferSize * index + scanHead) ≠ .SET) :
    view.Rescanning tempHeadOfQueue tempHead scanHeadOfQueue (scanHead + 1) target index := by
  refine { rescanning with
    scanInside := scanInside
    scanBehind := rescanning.scanBehind.trans (Nat.le_succ _)
    position := Nat.succ_le_of_lt (rescanning.position_lt notArrived scanInside)
    checked := ?_ }
  intro location behind before earlier
  rcases Nat.lt_succ_iff_lt_or_eq.mp before with before | rfl
  · exact rescanning.checked location behind before earlier
  · exact notSet

end Rescan

theorem Sound.step_rescan {tempHeadOfQueue scanHeadOfQueue : Address} {tempHead scanHead : Nat}
    (holds : (ConsumerPc.rescan tempHeadOfQueue tempHead scanHeadOfQueue scanHead :
      ConsumerPc Value).Holds view)
    (step : stepConsumer state.memory
      (.rescan tempHeadOfQueue tempHead scanHeadOfQueue scanHead) = some (after, next)) :
    Consumed state view (.rescan tempHeadOfQueue tempHead scanHeadOfQueue scanHead)
      after next := by
  obtain ⟨same, inside, target, index, rescanning⟩ := holds
  have targetBound := sound.wellFormed.live_lt target rescanning.member
  have indexOf : state.memory.indexOf tempHeadOfQueue = target := by
    rw [rescanning.address, sound.indexOf_eq targetBound]
  simp only [stepConsumer] at step
  simp only [Consumed, View.observeConsumer, indexOf]
  by_cases arrived : scanHeadOfQueue = tempHeadOfQueue ∧ tempHead ≤ scanHead
  · simp only [if_pos arrived] at step ⊢
    split at step <;> cases step
    next atHead =>
      rw [if_pos atHead]
      exact sound.rescan_atHead inside rescanning same arrived atHead _
    next notAtHead =>
      rw [if_neg notAtHead]
      obtain ⟨wellFormed, represents⟩ := sound.rescan_complete rescanning arrived
      exact sound.step_consumer wellFormed represents (View.consumes_handle rescanning.set) same
  · simp only [if_neg arrived] at step ⊢
    by_cases full : bufferSize ≤ scanHead
    · obtain ⟨other, _, found, further⟩ := sound.rescan_next rescanning full
      simp only [if_pos full, found] at step
      cases step
      exact sound.read_consumer ⟨same, inside, target, other, further⟩
    · have scanBound := sound.wellFormed.live_lt index rescanning.scanMember
      have scanInside := Nat.not_le.mp full
      have slot := sound.represents.slot index scanBound scanHead scanInside
      rw [← rescanning.scanAddress] at slot
      simp only [if_neg full, slot] at step
      split at step <;> cases step
      next set =>
        exact sound.read_consumer ⟨same, inside, index, view.headIndex,
          sound.rescan_start rescanning.scanMember rescanning.scanAddress scanInside
            rescanning.scanBehind set⟩
      next notSet =>
        exact sound.read_consumer
          ⟨same, inside, target, index, rescanning.past arrived scanInside notSet⟩

/-! ### Every access -/

/-- Every access of the consumer keeps the machine sound. -/
theorem Sound.step_from (holds : pc.Holds view)
    (step : stepConsumer state.memory pc = some (after, next)) :
    Consumed state view pc after next := by
  cases pc with
  | idle => simp only [stepConsumer, reduceCtorEq] at step
  | moveTail caller => exact sound.step_moveTail holds step
  | moveNext caller => exact sound.step_moveNext holds step
  | collect caller behind => exact sound.step_collect holds step
  | readHandled => exact sound.step_readHandled holds step
  | compareBuffer => exact sound.step_compareBuffer holds step
  | compareTail => exact sound.step_compareTail holds step
  | readSet => exact sound.step_readSet holds step
  | readEmpty => exact sound.step_readEmpty holds step
  | scan => exact sound.step_scan holds step
  | scanFlag => exact sound.step_scanFlag holds step
  | scanNext => exact sound.step_scanNext holds step
  | foldTail => exact sound.step_foldTail holds step
  | foldNext => exact sound.step_foldNext holds step
  | foldPrev => exact sound.step_foldPrev holds step
  | foldLink => exact sound.step_foldLink holds step
  | foldFree => exact sound.step_foldFree holds step
  | rescan => exact sound.step_rescan holds step
  | returning => simp only [stepConsumer, reduceCtorEq] at step

theorem Sound.perform_consumer [DecidableEq Producer] [DecidableEq Value]
    {target : State Producer Value} (step : perform state .consumer = some target) :
    Sound target (view.observe state .consumer) ∧ view.Consumes (view.observe state .consumer) := by
  obtain ⟨after, next, moves, rfl⟩ := MPSCQueue.perform_consumer step
  exact sound.step_from sound.consumer moves

end Consumer

end MarketSandbox.MPSCQueue
