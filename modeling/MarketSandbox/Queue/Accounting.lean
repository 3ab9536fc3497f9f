/-
This file follows the values along a run: every value whose enqueue was called is
waiting to be claimed or has a ticket, and the values that dequeue has returned,
with the one it is about to return, are the values delivered. With the bound on
the number of enqueues this makes every run sound.
-/

import MarketSandbox.Queue.Consumption

namespace MarketSandbox.MPSCQueue

open Transition

section Labels

variable {Producer Value : Type}

/-- The values whose enqueue has been called, in order. -/
def called (labels : List (Label Producer Value)) : List Value :=
  labels.filterMap fun label =>
    match label with
    | .enqueueCall _ data => some data
    | _ => none

/-- The values dequeue has returned, in order. -/
def returned (labels : List (Label Producer Value)) : List Value :=
  labels.filterMap fun label =>
    match label with
    | .dequeueReturn result => result
    | _ => none

/-- There are fewer than `2^32 - 2 * bufferSize` enqueues. -/
def FewEnqueues (labels : List (Label Producer Value)) : Prop :=
  (called labels).length < 2 ^ 32 - 2 * bufferSize

instance (labels : List (Label Producer Value)) : Decidable (FewEnqueues labels) :=
  Nat.decLt _ _

theorem called_append (front back : List (Label Producer Value)) :
    called (front ++ back) = called front ++ called back :=
  List.filterMap_append

theorem returned_append (front back : List (Label Producer Value)) :
    returned (front ++ back) = returned front ++ returned back :=
  List.filterMap_append

theorem FewEnqueues.of_append {front back : List (Label Producer Value)}
    (few : FewEnqueues (front ++ back)) : FewEnqueues front := by
  rw [FewEnqueues, called_append, List.length_append] at few
  exact (Nat.le_add_right _ _).trans_lt few

theorem mem_returned {labels : List (Label Producer Value)} {data : Value} :
    data ∈ returned labels ↔ .dequeueReturn (some data) ∈ labels := by
  rw [returned, List.mem_filterMap]
  constructor
  · rintro ⟨label, member, found⟩
    cases label <;> cases found
    exact member
  · intro member
    exact ⟨_, member, rfl⟩

end Labels

variable {Producer Value : Type} {state : State Producer Value}
  {view : View Value} {memory : Memory Value}

/-! ### The values called -/

/-- Every value called is waiting at a producer or has been claimed. -/
def CallsAccounted (labels : List (Label Producer Value)) (state : State Producer Value)
    (view : View Value) : Prop :=
  ∃ waiting : List (Producer × Value),
    (called labels).Perm (view.channel.claimed ++ waiting.map Prod.snd) ∧
      (waiting.map Prod.fst).Nodup ∧
        ∀ producer data, (producer, data) ∈ waiting ↔ state.producers producer = .claim data

theorem observeConsumer_claimed (pc : ConsumerPc Value) :
    (view.observeConsumer memory pc).channel.claimed = view.channel.claimed := by
  cases pc with
  | collect =>
    rw [View.observeConsumer]
    split
    · split <;> rfl
    · rfl
  | readHandled => rw [View.observeConsumer]; split <;> rfl
  | readSet => rw [View.observeConsumer]; split <;> rfl
  | rescan =>
    rw [View.observeConsumer]
    split
    · split <;> rfl
    · rfl
  | _ => rfl

theorem observeProducer_claimed {pc : ProducerPc Value} (notClaim : ∀ data, pc ≠ .claim data) :
    (view.observeProducer memory pc).channel.claimed = view.channel.claimed := by
  cases pc with
  | claim data => exact absurd rfl (notClaim data)
  | exchangeNext =>
    rw [View.observeProducer, View.observeLink]
    split
    · split <;> rfl
    · rfl
  | preallocateNext =>
    rw [View.observeProducer, View.observeLink]
    split
    · split <;> rfl
    · rfl
  | exchangeTail => rw [View.observeProducer, View.observeExchange]; split <;> rfl
  | preallocateTail => rw [View.observeProducer, View.observeExchange]; split <;> rfl
  | _ => rfl

/-- A producer claims a location only as the first access of an enqueue. -/
theorem stepProducer_notClaim {pc next : ProducerPc Value} {target : Memory Value}
    (step : stepProducer memory pc = some (target, next)) (data : Value) :
    next ≠ .claim data := by
  rintro rfl
  cases pc <;> simp only [stepProducer] at step <;> (repeat' split at step) <;>
    simp at step

theorem CallsAccounted.keep {labels : List (Label Producer Value)} {label : Label Producer Value}
    {target : State Producer Value} {grown : View Value}
    (accounted : CallsAccounted labels state view) (noCall : called [label] = [])
    (claimed : grown.channel.claimed = view.channel.claimed)
    (waiting : ∀ producer data, target.producers producer = .claim data ↔
      state.producers producer = .claim data) :
    CallsAccounted (labels ++ [label]) target grown := by
  obtain ⟨pending, perm, distinct, pending_iff⟩ := accounted
  refine ⟨pending, ?_, distinct, fun producer data => ?_⟩
  · rwa [called_append, noCall, List.append_nil, claimed]
  · rw [pending_iff, waiting]

theorem CallsAccounted.claims_le {labels : List (Label Producer Value)}
    (accounted : CallsAccounted labels state view) : view.claims ≤ (called labels).length := by
  obtain ⟨pending, perm, _, _⟩ := accounted
  rw [perm.length_eq, List.length_append]
  exact Nat.le_add_right _ _

theorem CallsAccounted.small {labels : List (Label Producer Value)}
    (accounted : CallsAccounted labels state view) (few : FewEnqueues labels) : view.Small := by
  have bound := accounted.claims_le
  simp only [FewEnqueues, View.Small, bufferSize] at few ⊢
  omega

theorem CallsAccounted.claimed_subset {labels : List (Label Producer Value)}
    (accounted : CallsAccounted labels state view) : view.channel.claimed ⊆ called labels := by
  obtain ⟨pending, perm, _, _⟩ := accounted
  exact fun value member => perm.mem_iff.mpr (List.mem_append_left _ member)

theorem CallsAccounted.claimed_nodup {labels : List (Label Producer Value)}
    (accounted : CallsAccounted labels state view) (distinct : (called labels).Nodup) :
    view.channel.claimed.Nodup := by
  obtain ⟨pending, perm, _, _⟩ := accounted
  exact (List.nodup_append.mp (perm.nodup_iff.mp distinct)).1

section Steps

variable [DecidableEq Producer]

/-- A producer that moves between two places that are not the claim waits for nothing. -/
theorem update_claim_iff {producers : Producer → ProducerPc Value} {producer : Producer}
    {pc : ProducerPc Value} (before : ∀ data, producers producer ≠ .claim data)
    (after : ∀ data, pc ≠ .claim data) (other : Producer) (data : Value) :
    Function.update producers producer pc other = .claim data ↔
      producers other = .claim data := by
  by_cases same : other = producer
  · subst same
    rw [Function.update_self]
    exact iff_of_false (after data) (before data)
  · rw [Function.update_of_ne same]

variable [DecidableEq Value]

theorem CallsAccounted.step {labels : List (Label Producer Value)} {label : Label Producer Value}
    {target : State Producer Value} (accounted : CallsAccounted labels state view)
    (step : perform state label = some target) :
    CallsAccounted (labels ++ [label]) target (view.observe state label) := by
  cases label with
  | enqueueCall producer data =>
    obtain ⟨pending, perm, distinct, pending_iff⟩ := accounted
    cases pc : state.producers producer <;> simp only [perform, pc, reduceCtorEq] at step
    simp only [Option.some.injEq] at step
    subst step
    have absent (other : Value) : (producer, other) ∉ pending := by
      rw [pending_iff, pc]
      rintro ⟨⟩
    refine ⟨(producer, data) :: pending, ?_, ?_, fun other value => ?_⟩
    · rw [called_append]
      refine (perm.append_right _).trans ?_
      rw [List.append_assoc, List.map_cons]
      exact List.Perm.append_left _ (List.perm_append_singleton _ _)
    · refine List.nodup_cons.mpr ⟨fun member => ?_, distinct⟩
      obtain ⟨⟨other, value⟩, member, same⟩ := List.mem_map.mp member
      change other = producer at same
      exact absent value (same ▸ member)
    · rw [List.mem_cons, Prod.mk.injEq]
      by_cases same : other = producer
      · subst same
        simp only [true_and, Function.update_self, ProducerPc.claim.injEq, absent, or_false]
        exact eq_comm
      · simp only [same, false_and, false_or, pending_iff, Function.update_of_ne same]
  | enqueueReturn producer data =>
    by_cases pc : state.producers producer = .returning data
    · simp only [perform, if_pos pc, Option.some.injEq] at step
      subst step
      refine accounted.keep rfl rfl (update_claim_iff (fun value => ?_) fun value => ?_)
      · rw [pc]
        rintro ⟨⟩
      · rintro ⟨⟩
    · simp only [perform, if_neg pc, reduceCtorEq] at step
  | dequeueCall =>
    cases pc : state.consumer <;> simp only [perform, pc, reduceCtorEq] at step
    simp only [Option.some.injEq] at step
    subst step
    exact accounted.keep rfl rfl fun _ _ => Iff.rfl
  | dequeueReturn result =>
    by_cases pc : state.consumer = .returning result
    · simp only [perform, if_pos pc, Option.some.injEq] at step
      subst step
      exact accounted.keep rfl rfl fun _ _ => Iff.rfl
    · simp only [perform, if_neg pc, reduceCtorEq] at step
  | consumer =>
    cases next : stepConsumer state.memory state.consumer with
    | none => simp only [perform, next, reduceCtorEq] at step
    | some result =>
      simp only [perform, next, Option.some.injEq] at step
      subst step
      exact accounted.keep rfl (observeConsumer_claimed _) fun _ _ => Iff.rfl
  | producer producer =>
    cases next : stepProducer state.memory (state.producers producer) with
    | none => simp only [perform, next, reduceCtorEq] at step
    | some result =>
      simp only [perform, next, Option.some.injEq] at step
      subst step
      have notClaim := stepProducer_notClaim next
      by_cases waiting : ∃ data, state.producers producer = .claim data
      · obtain ⟨data, pc⟩ := waiting
        obtain ⟨pending, perm, distinct, pending_iff⟩ := accounted
        obtain ⟨front, back, rfl⟩ :=
          List.mem_iff_append.mp ((pending_iff producer data).mpr pc)
        rw [List.map_append, List.map_cons, List.nodup_middle] at distinct
        refine ⟨front ++ back, ?_, ?_, fun other value => ?_⟩
        · rw [called_append]
          simp only [View.observe, pc, View.observeProducer, View.claim, TicketChannel.claim]
          refine (List.append_nil _).symm ▸ perm.trans ?_
          rw [List.map_append, List.map_cons, List.map_append, List.append_assoc]
          exact List.Perm.append_left _ List.perm_middle
        · rw [List.map_append]
          exact (List.nodup_cons.mp distinct).2
        · by_cases same : other = producer
          · subst same
            simp only [Function.update_self, notClaim, iff_false]
            intro member
            refine (List.nodup_cons.mp distinct).1 ?_
            rw [← List.map_append]
            exact List.mem_map.mpr ⟨(other, value), member, rfl⟩
          · have before := pending_iff other value
            simp only [Function.update_of_ne same, ← before, List.mem_append, List.mem_cons,
              Prod.mk.injEq, same, false_and, false_or]
      · exact accounted.keep rfl (observeProducer_claimed (not_exists.mp waiting))
          (update_claim_iff (not_exists.mp waiting) notClaim)

variable [Inhabited Value]

theorem callsAccounted {labels : List (Label Producer Value)}
    {pair : State Producer Value × View Value} (run : Run observed labels pair) :
    CallsAccounted labels pair.1 pair.2 := by
  refine run.invariant (fun labels pair => CallsAccounted labels pair.1 pair.2) ?_ ?_
  · rintro ⟨state, view⟩ ⟨rfl, rfl⟩
    exact ⟨[], List.Perm.refl _, List.nodup_nil, fun producer data => by simp [State.start]⟩
  · rintro labels ⟨state, view⟩ label ⟨target, grown⟩ _ accounted ⟨step, rfl⟩
    exact accounted.step step

end Steps

end MarketSandbox.MPSCQueue
