/-
This file proves that the destructor of the queue frees every buffer once. In a run
that leaves alone the buffers behind which producers are about to link others, a
buffer that has not been deleted is reached from the head, waits on the list of
garbage, or is just being folded away; so the destructor's two walks, which begin
when no call is in progress, meet all that is left, and none of it twice.
-/

import MarketSandbox.Queue.Progress

namespace MarketSandbox.MPSCQueue

open Transition

variable {Producer Value : Type} {memory after : Memory Value} {view grown : View Value}
  {garbage remaining : List Address}

/-! ### The destructor -/

/-- `delete current`. -/
def Memory.delete (memory : Memory Value) (current : Address) : Memory Value :=
  { memory with deleted := Function.update memory.deleted current true }

/-- A loop of the destructor, with the buffers it deletes in order; a bound on its turns is given,
and there is no result where it does not suffice. -/
def Memory.deleteAlong : Nat → Memory Value → Option Address → Option (Memory Value × List Address)
  | _, memory, none => some (memory, [])
  | 0, _, some _ => none
  | turns + 1, memory, some current =>
    match deleteAlong turns (memory.delete current) (memory.next current) with
    | some (last, deletions) => some (last, current :: deletions)
    | none => none

/-- `~MPSCQueue`: the buffers from the head on are deleted, and then the garbage. -/
def Memory.destroy (turns : Nat) (memory : Memory Value) :
    Option (Memory Value × List Address) :=
  match Memory.deleteAlong turns memory (some memory.headOfQueue) with
  | some (middle, first) =>
    match Memory.deleteAlong turns middle middle.garbageListHead with
    | some (last, second) => some (last, first ++ second)
    | none => none
  | none => none

/-- A loop over a list that ends deletes its nodes. -/
theorem deleteAlong_eq {turns : Nat} {head : Option Address} {nodes : List Address}
    (linked : LinkedList.Linked memory.next head nodes) (enough : nodes.length ≤ turns) :
    ∃ last, Memory.deleteAlong turns memory head = some (last, nodes) ∧ last.next = memory.next ∧
      last.garbageListHead = memory.garbageListHead ∧
      ∀ address, last.deleted address = true ↔ memory.deleted address = true ∨ address ∈ nodes := by
  induction nodes generalizing turns head memory with
  | nil =>
    obtain rfl := linked
    refine ⟨memory, by rw [Memory.deleteAlong], rfl, rfl, fun address => ?_⟩
    simp
  | cons first rest inductionHypothesis =>
    obtain ⟨rfl, tail⟩ := linked
    cases turns with
    | zero => exact absurd enough (Nat.not_succ_le_zero _)
    | succ turns =>
      obtain ⟨last, deletes, next, list, deleted⟩ :=
        @inductionHypothesis (memory.delete first) turns _ tail (Nat.le_of_succ_le_succ enough)
      refine ⟨last, by rw [Memory.deleteAlong, deletes], next, list, fun address => ?_⟩
      rw [deleted address, Memory.delete, List.mem_cons]
      by_cases same : address = first
      · simp [same]
      · simp [same]

/-! ### What has not been deleted -/

/-- Where the buffers that have been allocated are. -/
structure Covered (state : State Producer Value) (view : View Value) (garbage : List Address) :
    Prop where
  everywhere : ∀ address < state.memory.allocated, state.memory.deleted address = true ∨
    (∃ index ∈ view.live, address = view.buffer index) ∨ address ∈ garbage ∨
      ∃ next, state.consumer = .foldFree address next
  folding : ∀ temp next, state.consumer = .foldFree temp next → state.memory.next temp ≠ none

theorem Covered.start [Inhabited Value] : Covered (.start : State Producer Value) .initial [] where
  everywhere address bound := by
    refine Or.inr (Or.inl ⟨0, List.mem_singleton_self 0, ?_⟩)
    exact Nat.lt_one_iff.mp bound
  folding _ _ here := by cases here

theorem next_linkNext (memory : Memory Value) (tempTail : Address) :
    (memory.linkNext tempTail).next = Function.update
      (Function.update memory.next memory.allocated none) tempTail (some memory.allocated) := rfl

/-- A link is made behind one buffer only. -/
theorem linkNext_injective {first second : Address} (unlinked : memory.next first = none)
    (same : memory.linkNext first = memory.linkNext second) : first = second := by
  by_contra different
  have linked : (memory.linkNext first).next first = some memory.allocated :=
    Function.update_self ..
  have other : (memory.linkNext second).next first = none := by
    rw [next_linkNext, Function.update_of_ne different, Function.update_apply, unlinked, ite_self]
  rw [same, other] at linked
  exact Option.some_ne_none _ linked.symm

/-- The producer that links a buffer holds the one behind which it does so. -/
theorem held_of_linkNext {pc pcAfter : ProducerPc Value} {tempTail : Address}
    (step : stepProducer memory pc = some (memory.linkNext tempTail, pcAfter)) :
    pc.held = some tempTail := by
  have grown {other : Memory Value} {pc : ProducerPc Value}
      (kept : other.allocated = memory.allocated) :
      some (other, pc) ≠ some (memory.linkNext tempTail, pcAfter) := by
    intro same
    have linked := congrArg Memory.allocated (Prod.mk.inj (Option.some_inj.mp same)).1
    exact Nat.succ_ne_self _ (linked.symm.trans kept)
  have behind {first : Address} {pc : ProducerPc Value} (unlinked : memory.next first = none)
      (same : some (memory.linkNext first, pc) = some (memory.linkNext tempTail, pcAfter)) :
      some first = some tempTail :=
    congrArg some (linkNext_injective unlinked (Prod.mk.inj (Option.some_inj.mp same)).1)
  cases pc <;> simp only [stepProducer, reduceCtorEq] at step
  case exchangeNext =>
    split at step
    next unlinked => exact behind unlinked step
    next => exact absurd step (grown rfl)
  case preallocateNext =>
    split at step
    next unlinked => exact behind unlinked step
    next => exact absurd step (grown rfl)
  case exchangeTail => exact absurd step (grown (exchangeTail_sameBuffers ..).allocated)
  case preallocateTail => exact absurd step (grown (exchangeTail_sameBuffers ..).allocated)
  case claim => exact absurd step (grown rfl)
  case loadTail => exact absurd step (grown rfl)
  case walk =>
    split at step
    · split at step
      · cases step
      · exact absurd step (grown rfl)
    · exact absurd step (grown rfl)
  all_goals split at step <;> exact absurd step (grown rfl)

/-- An access that neither deletes the head buffer nor takes one out of the chain. -/
theorem observeConsumer_live {pc : ConsumerPc Value}
    (notCollect : ∀ caller next, pc ≠ .collect caller next)
    (notFold : ∀ temp next prev, pc ≠ .foldLink temp next prev) :
    (view.observeConsumer memory pc).live = view.live := by
  cases pc with
  | collect caller next => exact absurd rfl (notCollect caller next)
  | foldLink temp next prev => exact absurd rfl (notFold temp next prev)
  | readHandled =>
    simp only [View.observeConsumer]
    split <;> rfl
  | readSet =>
    simp only [View.observeConsumer]
    split <;> rfl
  | rescan =>
    simp only [View.observeConsumer]
    split
    · split <;> rfl
    · rfl
  | _ => rfl

section Step

variable [DecidableEq Producer] [DecidableEq Value] {state target : State Producer Value}
  (covered : Covered state view garbage) (reclaiming : Reclaiming state view garbage)
  (sound : Sound state view)
include covered reclaiming sound

/-- A producer's access. -/
theorem Covered.step_producer {producer : Producer}
    (still : Reclaiming target (view.observe state (.producer producer)) remaining)
    (step : perform state (.producer producer) = some target) :
    Covered target (view.observe state (.producer producer)) remaining := by
  have wellFormed := sound.wellFormed
  have represents := sound.represents
  obtain ⟨after, pcAfter, next, rfl⟩ := perform_producer step
  have linked := reclaiming.memory.linked
  have linkedAfter : LinkedList.Linked after.next after.garbageListHead remaining :=
    still.memory.linked
  rcases stepProducer_links next with ⟨same, unchanged⟩ | ⟨tempTail, unlinked, rfl, grows, observed⟩
  · obtain ⟨length, buffers, live⟩ := unchanged view
    rw [same.next, same.garbageListHead] at linkedAfter
    obtain rfl := linked.unique linkedAfter
    constructor
    · change ∀ address < after.allocated, after.deleted address = true ∨ _
      rw [same.allocated, same.deleted, View.observe, live, buffers]
      exact covered.everywhere
    · change ∀ temp behind, state.consumer = .foldFree temp behind → after.next temp ≠ none
      rw [same.next]
      exact covered.folding
  · have undeleted := reclaiming.producers producer tempTail (held_of_linkNext next)
    obtain ⟨index, reached, rfl, _⟩ := grows view (sound.producers producer)
    have below := reached.trans_lt wellFormed.tail_lt
    rw [View.observe, observed, View.observeLink]
    have folding : ∀ temp behind, state.consumer = .foldFree temp behind →
        (state.memory.linkNext (view.buffer index)).next temp ≠ none := by
      intro temp behind here
      have known := sound.consumer
      rw [here] at known
      obtain ⟨_, _, folded, foldedBound, _, rfl, _⟩ := known
      have old := represents.newAddress_ne (foldedBound.trans wellFormed.tail_lt)
      rw [next_linkNext, Function.update_apply, Function.update_of_ne old]
      split
      · exact Option.some_ne_none _
      · exact covered.folding _ behind here
    by_cases last : index + 1 = view.length
    · rw [if_pos (by rw [show view.length - 1 = index by omega])]
      have appended := Reclaimed.append wellFormed reclaiming.memory last
      obtain rfl := appended.linked.unique linkedAfter
      refine ⟨fun address bound => ?_, folding⟩
      rcases Nat.lt_succ_iff_lt_or_eq.mp bound with bound | rfl
      · refine (covered.everywhere address bound).imp_right (Or.imp_left ?_)
        rintro ⟨other, member, rfl⟩
        have different := Nat.ne_of_lt (wellFormed.live_lt other member)
        exact ⟨other, List.mem_append_left _ member, (Function.update_of_ne different ..).symm⟩
      · have added : (view.append state.memory.allocated).buffer view.length =
            state.memory.allocated := Function.update_self ..
        exact Or.inr (Or.inl
          ⟨view.length, List.mem_append_right _ List.mem_cons_self, added.symm⟩)
    · rw [if_neg]
      · -- behind a buffer that the consumer does not reach any more, only garbage can grow
        have waits : view.buffer index ∈ garbage := by
          rcases covered.everywhere _ (represents.address index below) with gone | live | waits |
            ⟨behind, here⟩
          · exact absurd (gone.symm.trans undeleted) Bool.noConfusion
          · obtain ⟨other, member, same⟩ := live
            obtain rfl :=
              represents.buffer_injective below (wellFormed.live_lt other member) same
            obtain ⟨_, _, _, _, follows⟩ := represents.next_of_live wellFormed member last
            exact absurd (unlinked.symm.trans follows).symm (Option.some_ne_none _)
          · exact waits
          · exact absurd unlinked (covered.folding _ behind here)
        have unused := fun waiting =>
          lt_irrefl _ (reclaiming.memory.waiting state.memory.allocated waiting).1
        obtain rfl :=
          (linked.extend reclaiming.memory.distinct waits unlinked unused).unique linkedAfter
        refine ⟨fun address bound => ?_, folding⟩
        rcases Nat.lt_succ_iff_lt_or_eq.mp bound with bound | rfl
        · exact (covered.everywhere address bound).imp_right
            (Or.imp_right (Or.imp_left (List.mem_append_left _)))
        · exact Or.inr (Or.inr (Or.inl (List.mem_append_right _ List.mem_cons_self)))
      · intro same
        have equal := represents.buffer_injective below (by omega) same
        omega

omit [DecidableEq Producer] [DecidableEq Value] reclaiming in
/-- The head buffer is deleted, and the others stay where they are. -/
theorem Covered.deleteHead {caller : Caller Value} {index : Nat} {rest : List Nat}
    (here : state.consumer = .collect caller (view.buffer index))
    (whole : view.live = view.headIndex :: index :: rest) {resumed : ConsumerPc Value}
    (notFolding : ∀ temp next, resumed ≠ .foldFree temp next) :
    Covered { state with
      memory := state.memory.deleteHead (view.buffer index)
      consumer := resumed } (view.moveHead index) garbage := by
  refine ⟨fun address allocated => ?_, fun temp next folds => absurd folds (notFolding temp next)⟩
  change Function.update state.memory.deleted state.memory.headOfQueue true address = true ∨ _
  rw [Function.update_apply, sound.represents.headOfQueue]
  rcases covered.everywhere address allocated with gone | ⟨other, member, rfl⟩ | waits |
    ⟨next, folds⟩
  · exact Or.inl (by rw [gone, ite_self])
  · rw [whole] at member
    rcases List.mem_cons.mp member with rfl | member
    · exact Or.inl (if_pos rfl)
    · exact Or.inr (Or.inl ⟨other, by rwa [View.moveHead, whole], rfl⟩)
  · exact Or.inr (Or.inr (Or.inl waits))
  · exact absurd (here.symm.trans folds) (by rintro ⟨⟩)

omit [DecidableEq Producer] [DecidableEq Value] reclaiming sound in
/-- The first buffer of the garbage is deleted. -/
theorem Covered.deleteGarbage {caller : Caller Value} {behind first : Address}
    {others : List Address} (here : state.consumer = .collect caller behind)
    (list : garbage = first :: others) :
    Covered { state with
      memory := state.memory.deleteGarbage first
      consumer := .collect caller behind } view others := by
  refine ⟨fun address allocated => ?_, fun _ _ folds => by cases folds⟩
  change Function.update state.memory.deleted first true address = true ∨ _
  rw [Function.update_apply]
  rcases covered.everywhere address allocated with gone | live | waits | ⟨next, folds⟩
  · exact Or.inl (by rw [gone, ite_self])
  · exact Or.inr (Or.inl live)
  · rw [list] at waits
    rcases List.mem_cons.mp waits with rfl | waits
    · exact Or.inl (if_pos rfl)
    · exact Or.inr (Or.inr (Or.inl waits))
  · exact absurd (here.symm.trans folds) (by rintro ⟨⟩)

section Consumer

variable {next : ConsumerPc Value}

omit [DecidableEq Producer] [DecidableEq Value] in
theorem Covered.step_collect {caller : Caller Value} {behind : Address}
    (here : state.consumer = .collect caller behind)
    (still : LinkedList.Linked after.next after.garbageListHead remaining)
    (step : stepConsumer state.memory (.collect caller behind) = some (after, next)) :
    Covered { state with memory := after, consumer := next }
      (view.observeConsumer state.memory (.collect caller behind)) remaining := by
  have holds := sound.consumer
  have linked := reclaiming.memory.linked
  rw [here] at holds
  obtain ⟨_, _, _, index, rest, whole, rfl⟩ := holds
  have bound := sound.wellFormed.live_lt index (by simp [whole])
  simp only [stepConsumer] at step
  simp only [View.observeConsumer, sound.indexOf_eq bound]
  cases list : state.memory.garbageListHead with
  | none =>
    simp only [list] at step ⊢
    cases step
    obtain rfl := linked.unique still
    exact covered.deleteHead sound here whole (resume_ne_foldFree _ caller true)
  | some first =>
    simp only [list] at step ⊢
    split at step <;> cases step
    next older =>
      rw [if_pos older]
      cases garbage with
      | nil => exact absurd (list.symm.trans linked) (Option.some_ne_none first)
      | cons other others =>
        obtain rfl := Option.some_inj.mp (list.symm.trans linked.1)
        obtain rfl := linked.2.unique still
        exact covered.deleteGarbage here rfl
    next notOlder =>
      rw [if_neg notOlder]
      obtain rfl := linked.unique still
      exact covered.deleteHead sound here whole (resume_ne_foldFree _ caller true)

omit [DecidableEq Producer] [DecidableEq Value] in
/-- The buffer taken out of the chain waits to be put on the garbage list. -/
theorem Covered.step_foldLink {temp behind : Address} {prev : Option Address}
    (here : state.consumer = .foldLink temp behind prev)
    (still : LinkedList.Linked after.next after.garbageListHead remaining)
    (step : stepConsumer state.memory (.foldLink temp behind prev) = some (after, next)) :
    Covered { state with memory := after, consumer := next }
      (view.observeConsumer state.memory (.foldLink temp behind prev)) remaining := by
  have holds := sound.consumer
  rw [here] at holds
  obtain ⟨_, index, _, _, _, before, first, last, rest, whole, rfl, rfl, rfl⟩ := holds
  have member : index ∈ view.live := by simp [whole]
  have bound := sound.wellFormed.live_lt index member
  have firstMember : first ∈ view.live := by simp [whole]
  simp only [stepConsumer] at step
  cases step
  have outside := reclaiming.memory.notMem_of_live firstMember
  obtain rfl := (reclaiming.memory.linked.update outside _).unique still
  simp only [View.observeConsumer, sound.indexOf_eq bound]
  constructor
  · intro address allocated
    rcases covered.everywhere address allocated with gone | ⟨other, live, rfl⟩ | waits |
      ⟨next, folds⟩
    · exact Or.inl gone
    · by_cases same : other = index
      · subst same
        exact Or.inr (Or.inr (Or.inr ⟨_, rfl⟩))
      · exact Or.inr (Or.inl ⟨other, (List.mem_erase_of_ne same).mpr live, rfl⟩)
    · exact Or.inr (Or.inr (Or.inl waits))
    · exact absurd (here.symm.trans folds) (by rintro ⟨⟩)
  · rintro temp next ⟨⟩
    have shifted : view.live = (before ++ [first]) ++ index :: last :: rest := by simp [whole]
    have forward := sound.represents.forward
    rw [shifted, List.map_append, List.map_cons, List.map_cons] at forward
    have follows := LinkedList.Forward.next_eq forward
    change Function.update state.memory.next (view.buffer first) (some (view.buffer last))
      (view.buffer index) ≠ none
    rw [Function.update_apply, follows, ite_self]
    exact Option.some_ne_none _

omit [DecidableEq Producer] [DecidableEq Value] sound in
/-- The buffer taken out of the chain is put on the garbage list. -/
theorem Covered.step_foldFree {temp behind : Address}
    (here : state.consumer = .foldFree temp behind)
    (still : LinkedList.Linked after.next after.garbageListHead remaining)
    (step : stepConsumer state.memory (.foldFree temp behind) = some (after, next)) :
    Covered { state with memory := after, consumer := next } view remaining := by
  cases step
  obtain ⟨outside, _⟩ := reclaiming.consumer temp behind here
  obtain rfl := (reclaiming.memory.linked.push outside).unique still
  refine ⟨fun address allocated => ?_, fun _ _ folds => by cases folds⟩
  rcases covered.everywhere address allocated with gone | live | waits | ⟨next, folds⟩
  · exact Or.inl gone
  · exact Or.inr (Or.inl live)
  · exact Or.inr (Or.inr (Or.inl (List.mem_cons_of_mem _ waits)))
  · cases here.symm.trans folds
    exact Or.inr (Or.inr (Or.inl List.mem_cons_self))

omit [DecidableEq Producer] [DecidableEq Value] sound in
/-- Any other access of the consumer leaves the buffers where they are. -/
theorem Covered.step_same (same : state.memory.SameBuffers after)
    (notFolding : ∀ temp behind, next ≠ .foldFree temp behind)
    (notCollect : ∀ caller behind, state.consumer ≠ .collect caller behind)
    (notLink : ∀ temp behind prev, state.consumer ≠ .foldLink temp behind prev)
    (notFree : ∀ temp behind, state.consumer ≠ .foldFree temp behind)
    (still : LinkedList.Linked after.next after.garbageListHead remaining) :
    Covered { state with memory := after, consumer := next }
      (view.observeConsumer state.memory state.consumer) remaining := by
  have kept := keepsBuffers_observeConsumer view state.memory state.consumer
  have live := @observeConsumer_live _ state.memory view state.consumer notCollect notLink
  rw [same.next, same.garbageListHead] at still
  obtain rfl := reclaiming.memory.linked.unique still
  refine ⟨fun address allocated => ?_, fun temp next folds => absurd folds (notFolding temp next)⟩
  change after.deleted address = true ∨ _
  rw [same.deleted, kept.buffer, live]
  change address < after.allocated at allocated
  rw [same.allocated] at allocated
  refine (covered.everywhere address allocated).imp_right (Or.imp_right (Or.imp_right ?_))
  rintro ⟨next, folds⟩
  exact absurd folds (notFree address next)

/-- An access of the consumer. -/
theorem Covered.step_consumer
    (still : Reclaiming target (view.observe state .consumer) remaining)
    (step : perform state .consumer = some target) :
    Covered target (view.observe state .consumer) remaining := by
  obtain ⟨after, next, moves, rfl⟩ := perform_consumer step
  have list : LinkedList.Linked after.next after.garbageListHead remaining := still.memory.linked
  rw [View.observe]
  cases pc : state.consumer with
  | collect caller behind =>
    exact covered.step_collect reclaiming sound pc list (pc ▸ moves)
  | foldLink temp behind prev =>
    exact covered.step_foldLink reclaiming sound pc list (pc ▸ moves)
  | foldFree temp behind =>
    exact covered.step_foldFree reclaiming pc list (pc ▸ moves)
  | _ =>
    rw [← pc]
    rcases stepConsumer_reclaims moves with ⟨same, notFolding⟩ | ⟨_, _, here⟩ | ⟨_, _, _, here⟩ |
      ⟨_, _, here⟩
    · exact covered.step_same reclaiming same notFolding (by rw [pc]; rintro _ _ ⟨⟩)
        (by rw [pc]; rintro _ _ _ ⟨⟩) (by rw [pc]; rintro _ _ ⟨⟩) list
    · exact absurd (pc.symm.trans here) (by rintro ⟨⟩)
    · exact absurd (pc.symm.trans here) (by rintro ⟨⟩)
    · exact absurd (pc.symm.trans here) (by rintro ⟨⟩)

end Consumer

/-- Any other step. -/
theorem Covered.step {label : Label Producer Value}
    (still : Reclaiming target (view.observe state label) remaining)
    (step : perform state label = some target) :
    Covered target (view.observe state label) remaining := by
  have linked := reclaiming.memory.linked
  cases label with
  | producer producer => exact covered.step_producer reclaiming sound still step
  | consumer => exact covered.step_consumer reclaiming sound still step
  | enqueueCall producer data =>
    obtain ⟨_, rfl⟩ := perform_enqueueCall step
    obtain rfl := linked.unique still.memory.linked
    exact ⟨covered.everywhere, covered.folding⟩
  | enqueueReturn producer data =>
    obtain ⟨_, rfl⟩ := perform_enqueueReturn step
    obtain rfl := linked.unique still.memory.linked
    exact ⟨covered.everywhere, covered.folding⟩
  | dequeueCall =>
    obtain ⟨idle, rfl⟩ := perform_dequeueCall step
    obtain rfl := linked.unique still.memory.linked
    refine ⟨fun address bound => ?_, fun temp next here => ?_⟩
    · refine (covered.everywhere address bound).imp_right (Or.imp_right (Or.imp_right ?_))
      rintro ⟨next, here⟩
      exact absurd (idle.symm.trans here) (by rintro ⟨⟩)
    · exact absurd here (resume_ne_foldFree state.memory .check true temp next)
  | dequeueReturn result =>
    obtain ⟨returning, rfl⟩ := perform_dequeueReturn step
    obtain rfl := linked.unique still.memory.linked
    refine ⟨fun address bound => ?_, fun _ _ here => by cases here⟩
    refine (covered.everywhere address bound).imp_right (Or.imp_right (Or.imp_right ?_))
    rintro ⟨next, here⟩
    exact absurd (returning.symm.trans here) (by rintro ⟨⟩)

end Step

/-! ### Every run -/

section Runs

variable [DecidableEq Producer] [DecidableEq Value] [Inhabited Value]
  {state : State Producer Value} {labels : List (Label Producer Value)}

theorem covered_run (run : Run (system.restrict WrapsNothing) labels state)
    (spares : ∀ front label source, front ++ [label] <+: labels → Run system front source →
      SparesGrowing source label) :
    ∃ view garbage, Sound state view ∧ view.Room ∧ Reclaiming state view garbage ∧
      Covered state view garbage := by
  refine @Run.invariant_of_admissible _ _ (system.restrict WrapsNothing)
    (fun labels => ∀ front label source, front ++ [label] <+: labels → Run system front source →
      SparesGrowing source label)
    (fun _ state => ∃ view garbage, Sound state view ∧ view.Room ∧ Reclaiming state view garbage ∧
      Covered state view garbage) labels state ?_ ?_ ?_ run spares
  · exact fun labels label spares front other source before =>
      spares front other source (before.trans (List.prefix_append _ _))
  · rintro state rfl
    exact ⟨.initial, [], .start, (by decide : bufferSize * 1 < 2 ^ 32), .start, .start⟩
  · rintro labels source label target before spares
      ⟨view, garbage, sound, room, reclaiming, covered⟩ ⟨wraps, step⟩
    have spared := spares labels label source List.prefix_rfl before.of_restrict
    obtain ⟨soundAfter, _, roomAfter⟩ := sound.step_of_wraps room wraps step
    obtain ⟨remaining, after⟩ := reclaiming.step sound room wraps spared step
    exact ⟨_, remaining, soundAfter, roomAfter, after, covered.step reclaiming sound after step⟩

omit [DecidableEq Producer] [DecidableEq Value] [Inhabited Value] in
/-- The buffers from the head on, as the destructor finds them. -/
theorem Sound.linked_live {view : View Value} (sound : Sound state view) :
    LinkedList.Linked state.memory.next (some state.memory.headOfQueue)
      (view.live.map view.buffer) := by
  obtain ⟨others, whole, _⟩ := sound.wellFormed.live_concat
  obtain ⟨behind, first⟩ := sound.wellFormed.first
  have forward := sound.represents.forward
  have start : (view.live.map view.buffer).head? = some state.memory.headOfQueue := by
    rw [first, sound.represents.headOfQueue]
    rfl
  rw [← start]
  rw [whole, List.map_append, List.map_singleton] at forward ⊢
  exact forward.linked sound.represents.last

/-- After a run in which no counter wraps and no step deletes a buffer behind which a producer is
about to link another one, the destructor, called between two calls of dequeue, deletes each buffer
that has been allocated and not deleted yet, each of them once, and leaves none. -/
theorem destroy_frees_once (run : Run (system.restrict WrapsNothing) labels state)
    (spares : ∀ front label source, front ++ [label] <+: labels → Run system front source →
      SparesGrowing source label)
    (idle : state.consumer = .idle) :
    ∃ last deletions,
      state.memory.destroy state.memory.allocated = some (last, deletions) ∧ deletions.Nodup ∧
        (∀ address, address ∈ deletions ↔
          address < state.memory.allocated ∧ state.memory.deleted address = false) ∧
        ∀ address < state.memory.allocated, last.deleted address = true := by
  obtain ⟨view, garbage, sound, _, reclaiming, covered⟩ := covered_run run spares
  have wellFormed := sound.wellFormed
  have represents := sound.represents
  have distinct : (view.live.map view.buffer ++ garbage).Nodup := by
    refine List.Nodup.append (represents.map_nodup wellFormed.live_nodup wellFormed.live_lt)
      reclaiming.memory.distinct fun address live waits => ?_
    obtain ⟨index, member, rfl⟩ := List.mem_map.mp live
    exact reclaiming.memory.notMem_of_live member waits
  have left (address : Address) : address ∈ view.live.map view.buffer ++ garbage ↔
      address < state.memory.allocated ∧ state.memory.deleted address = false := by
    rw [List.mem_append, List.mem_map]
    constructor
    · rintro (⟨index, member, rfl⟩ | waits)
      · exact ⟨represents.address index (wellFormed.live_lt index member),
          reclaiming.memory.live index member⟩
      · obtain ⟨bound, undeleted, _⟩ := reclaiming.memory.waiting address waits
        exact ⟨bound, undeleted⟩
    · rintro ⟨bound, undeleted⟩
      rcases covered.everywhere address bound with gone | ⟨index, member, rfl⟩ | waits | ⟨_, here⟩
      · exact absurd (gone.symm.trans undeleted) Bool.noConfusion
      · exact Or.inl ⟨index, member, rfl⟩
      · exact Or.inr waits
      · exact absurd (idle.symm.trans here) (by rintro ⟨⟩)
  have few : (view.live.map view.buffer ++ garbage).length ≤ state.memory.allocated := by
    have inside : view.live.map view.buffer ++ garbage ⊆ List.range state.memory.allocated :=
      fun address member => List.mem_range.mpr ((left address).mp member).1
    simpa using distinct.length_le_of_subset inside
  rw [List.length_append] at few
  obtain ⟨middle, first, next, list, deletedFirst⟩ :=
    deleteAlong_eq sound.linked_live ((Nat.le_add_right _ _).trans few)
  have rest := reclaiming.memory.linked
  rw [← next, ← list] at rest
  obtain ⟨last, second, _, _, deletedLast⟩ :=
    deleteAlong_eq rest ((Nat.le_add_left _ _).trans few)
  refine ⟨last, view.live.map view.buffer ++ garbage, ?_, distinct, left, fun address bound => ?_⟩
  · rw [Memory.destroy, first]
    simp only [second]
  · rw [deletedLast, deletedFirst, or_assoc, ← List.mem_append, left]
    cases state.memory.deleted address with
    | true => exact Or.inl rfl
    | false => exact Or.inr ⟨bound, rfl⟩

end Runs

/-- The first buffer has been deleted before, and the destructor deletes the other one. -/
theorem destroy_frees_once_sample : ∃ state last deletions,
    Run system (Sample.provided ++ Sample.emptied) state ∧
      state.memory.destroy state.memory.allocated = some (last, deletions) ∧
      deletions.Nodup ∧ state.memory.deleted 0 = true ∧ 0 ∉ deletions := by
  obtain ⟨source, state, run, steps, _, idle, deleted⟩ := Sample.reclaimed_run
  have whole := run.append steps
  obtain ⟨last, deletions, destroyed, distinct, left, _⟩ :=
    destroy_frees_once (wrapsNothing_of_few whole (by decide +kernel))
      (fun _ _ _ within before => Sample.reclaimed_spares within before) idle
  refine ⟨state, last, deletions, whole, destroyed, distinct, deleted, fun member => ?_⟩
  exact absurd (deleted.symm.trans ((left 0).mp member).2) Bool.noConfusion

end MarketSandbox.MPSCQueue
