/-
This file says how long the arithmetic modulo `2^32` serves a queue in
sequential use. The size of a buffer does not divide `2^32`, so there is a
buffer whose end wraps while its start does not. As soon as the tail points to
that buffer, a producer takes it for one that ends before its location, and
appends one buffer after another. Until then every call of enqueue finds the
slot that follows the one before, and appends one buffer at most.
-/

import MarketSandbox.Queue.Sequential

namespace MarketSandbox.MPSCQueue

variable {Value : Type} {memory : Memory Value} {view final : View Value} {data : Value}
  {calls : List (Call Value)} {answers : List (Option Value)}

/-- The number of slots of the buffers whose end does not wrap. -/
def unwrapped : Nat := bufferSize * (2 ^ 32 / bufferSize)

/-- The slot behind the one written before: the next one of its buffer, or the first one of the
buffer linked to it. -/
def Follows (memory : Memory Value) : Option (Address × Nat) → Address × Nat → Prop
  | none, slot => slot = (memory.headOfQueue, 0)
  | some (buffer, index), slot =>
    if index + 1 < bufferSize then slot = (buffer, index + 1)
    else memory.next buffer = some slot.1 ∧ slot.2 = 0

/-- The loops of a call of enqueue that select a buffer end with this slot. -/
def Chooses (memory : Memory Value) (data : Value) (slot : Address × Nat) : Prop :=
  ∃ chosen location prevSize isLastBuffer, slot.2 = location - prevSize ∧
    Relation.ReflTransGen EnqueueAccess (memory, .claim data)
      (chosen, .loadSlot data location prevSize slot.1 isLastBuffer)

/-- Calls made one after another return, with these answers of dequeue; every call of enqueue
writes the slot that follows the one before, and appends one buffer at most. -/
inductive Orderly : Memory Value → Option (Address × Nat) → List (Call Value) →
    List (Option Value) → Prop
  | nil (memory : Memory Value) (previous : Option (Address × Nat)) :
      Orderly memory previous [] []
  | enqueue {memory next : Memory Value} {previous : Option (Address × Nat)}
      {slot : Address × Nat} {data : Value} {calls : List (Call Value)}
      {answers : List (Option Value)} (first : Enqueues memory data next)
      (chooses : Chooses memory data slot) (follows : Follows memory previous slot)
      (appends : next.allocated ≤ memory.allocated + 1)
      (rest : Orderly next (some slot) calls answers) :
      Orderly memory previous (.enqueue data :: calls) answers
  | dequeue {memory next : Memory Value} {previous : Option (Address × Nat)}
      {answer : Option Value} {calls : List (Call Value)} {answers : List (Option Value)}
      (first : Dequeues memory answer next) (rest : Orderly next previous calls answers) :
      Orderly memory previous (.dequeue :: calls) (answer :: answers)

/-! ### Before the end of a buffer wraps -/

/-- The slot written last. -/
def View.latest (view : View Value) : Option (Address × Nat) :=
  if view.claims = 0 then none
  else some (view.buffer ((view.claims - 1) / bufferSize), (view.claims - 1) % bufferSize)

theorem View.Consumes.latest (consumes : view.Consumes final) : final.latest = view.latest := by
  rw [View.latest, View.latest, View.claims, consumes.claimed, consumes.buffer, View.claims]

theorem View.Continues.latest (continues : (view.claim data).Continues final)
    (reached : view.claims / bufferSize < view.length) :
    final.latest = some (view.buffer (view.claims / bufferSize), view.claims % bufferSize) := by
  have claims := View.claims_append continues
  rw [View.latest, if_neg (by omega), claims, Nat.add_sub_cancel]
  rw [show final.buffer (view.claims / bufferSize) = view.buffer (view.claims / bufferSize) from
    continues.buffer _ reached]

/-- The slot of the next location follows the slot written last. -/
theorem Solo.follows {producer : ProducerPc Value} {consumer : ConsumerPc Value}
    (solo : Solo memory producer consumer view)
    (reached : view.claims / bufferSize < view.length) :
    Follows memory view.latest
      (view.buffer (view.claims / bufferSize), view.claims % bufferSize) := by
  rw [View.latest]
  split_ifs with fresh
  · have behind := solo.front_le
    have first : view.headIndex = 0 := by
      simp only [View.front, fresh, bufferSize] at behind
      omega
    rw [Follows, fresh, solo.represents.headOfQueue, first]
    rfl
  · rw [Follows]
    split_ifs with inside
    · have same : (view.claims - 1) / bufferSize = view.claims / bufferSize := by
        simp only [bufferSize] at inside ⊢
        omega
      have offset : (view.claims - 1) % bufferSize + 1 = view.claims % bufferSize := by
        simp only [bufferSize] at inside ⊢
        omega
      rw [same, offset]
    · have next : (view.claims - 1) / bufferSize + 1 = view.claims / bufferSize := by
        simp only [bufferSize] at inside ⊢
        omega
      have offset : view.claims % bufferSize = 0 := by
        simp only [bufferSize] at inside ⊢
        omega
      rw [← next] at reached ⊢
      exact ⟨solo.links _ reached, offset⟩

/-- The calls are orderly as long as there are slots in buffers whose end does not wrap. -/
theorem Solo.orderly (solo : Solo memory .idle .idle view)
    (few : view.claims + (enqueued calls).length < unwrapped) :
    Orderly memory view.latest calls (fifo view.contents calls) := by
  induction calls generalizing memory view with
  | nil => exact .nil memory view.latest
  | cons call calls inductionHypothesis =>
    cases call with
    | enqueue data =>
      have length : (enqueued (.enqueue data :: calls)).length = (enqueued calls).length + 1 := rfl
      rw [length] at few
      have early : view.Early := by
        simp only [View.Early, unwrapped, bufferSize] at few ⊢
        omega
      obtain ⟨claimed, next, grown, claims, _, ⟨isLastBuffer, accesses, located⟩, first, after,
        appends, continues⟩ := solo.enqueue early data
      obtain ⟨_, reached, _⟩ : (view.claim data).Owned data view.claims ∧
        (view.claim data).Located view.claims _ _ isLastBuffer := located.sound.producers ()
      have bound : view.claims / bufferSize < view.length :=
        reached.trans_lt solo.wellFormed.tail_lt
      have rest := inductionHypothesis after (by rw [View.claims_append continues]; omega)
      rw [View.contents_append solo.front_le continues, continues.latest bound] at rest
      refine .enqueue first ⟨claimed, _, _, isLastBuffer, ?_, .head claims accesses⟩
        (solo.follows bound) appends rest
      simp only [bufferSize]
      omega
    | dequeue =>
      obtain ⟨next, taken, first, after, consumes, contents⟩ := solo.dequeue
      have claims : taken.claims = view.claims := by rw [View.claims, consumes.claimed, View.claims]
      have rest := inductionHypothesis after (by rwa [claims])
      rw [contents, consumes.latest] at rest
      exact .dequeue first rest

/-! ### After the end of a buffer has wrapped -/

theorem EnqueueAccess.allocated_le {source target : Memory Value × ProducerPc Value}
    (access : EnqueueAccess source target) : source.1.allocated ≤ target.1.allocated :=
  (stepProducer_keeps access.2).2.2.2

/-- No buffer is taken back while a call of enqueue runs. -/
theorem allocated_le_of_accesses {source target : Memory Value × ProducerPc Value}
    (accesses : Relation.ReflTransGen EnqueueAccess source target) :
    source.1.allocated ≤ target.1.allocated := by
  induction accesses with
  | refl => exact le_rfl
  | tail _ access inductionHypothesis => exact inductionHypothesis.trans access.allocated_le

/-- A buffer is appended because the last one seems to end before the location. -/
theorem append_accesses {location tempTail : Nat} (tail : memory.tailOfQueue = tempTail)
    (ended : numberOfElements (memory.positionInQueue tempTail) ≤ location)
    (unlinked : memory.next tempTail = none) :
    Relation.ReflTransGen EnqueueAccess (memory, .loadTail data location)
      ((memory.linkNext tempTail).exchangeTail tempTail memory.allocated,
        .loadTail data location) := by
  have loadTail : stepProducer memory (.loadTail data location) =
      some (memory, .compare data location tempTail) := by
    rw [stepProducer, tail]
  have compare : stepProducer memory (.compare data location tempTail) =
      some (memory, .loadNext data location tempTail) := by
    rw [stepProducer, if_pos ended]
  have loadNext : stepProducer memory (.loadNext data location tempTail) =
      some (memory, .exchangeNext data location tempTail) := by
    simp only [stepProducer, unlinked]
  have exchangeNext : stepProducer memory (.exchangeNext data location tempTail) =
      some (memory.linkNext tempTail,
        .exchangeTail data location tempTail memory.allocated) := by
    simp only [stepProducer, unlinked]
  exact .head ⟨trivial, loadTail⟩ (.head ⟨trivial, compare⟩ (.head ⟨trivial, loadNext⟩
    (.head ⟨trivial, exchangeNext⟩ (.single ⟨trivial, rfl⟩))))

/-- Where the ends of the tail's buffer and of the one behind it have wrapped, a call of enqueue
appends two buffers before it leaves its loops. -/
theorem two_appended {location tempTail : Nat} {last : Memory Value}
    (tail : memory.tailOfQueue = tempTail) (unlinked : memory.next tempTail = none)
    (ended : numberOfElements (memory.positionInQueue tempTail) ≤ location)
    (endedNext : numberOfElements (wrap (memory.positionInQueue tempTail + 1)) ≤ location)
    (fresh : tempTail ≠ memory.allocated)
    (accesses : Relation.ReflTransGen EnqueueAccess (memory, .loadTail data location)
      (last, .returning data)) : memory.allocated + 2 ≤ last.allocated := by
  have exchanged : (memory.linkNext tempTail).exchangeTail tempTail memory.allocated =
      { memory.linkNext tempTail with tailOfQueue := memory.allocated } := by
    rw [Memory.exchangeTail]
    exact if_pos tail
  have first : Relation.ReflTransGen EnqueueAccess (memory, .loadTail data location)
      ({ memory.linkNext tempTail with tailOfQueue := memory.allocated },
        .loadTail data location) := exchanged ▸ append_accesses tail ended unlinked
  have endsNext : numberOfElements ((memory.linkNext tempTail).positionInQueue memory.allocated) ≤
      location := by
    refine le_of_eq_of_le (congrArg numberOfElements ?_) endedNext
    exact Function.update_self ..
  have unlinkedNext : (memory.linkNext tempTail).next memory.allocated = none :=
    (Function.update_of_ne fresh.symm ..).trans (Function.update_self ..)
  have second := first.trans (append_accesses rfl endsNext unlinkedNext)
  rcases second.total_of_right_unique enqueueAccess_unique accesses with rest | rest
  · have grown := allocated_le_of_accesses rest
    simp only [exchangeTail_allocated] at grown
    exact grown
  · rcases rest.cases_head with same | ⟨target, access, _⟩
    · cases congrArg Prod.snd same
    · exact absurd access (returning_enqueue last data target)

/-- The call that claims the last slot of the last buffer whose end does not wrap finds the tail
beyond it. -/
theorem Solo.wraps (solo : Solo memory .idle .idle view) (full : view.claims + 1 = unwrapped)
    {last : Memory Value} (enqueues : Enqueues memory data last) :
    memory.allocated + 2 ≤ last.allocated := by
  have wellFormed := solo.wellFormed
  have represents := solo.represents
  obtain ⟨final, _, room⟩ := solo.tail_reaches rfl rfl nofun
  have claims := room rfl
  have bounded := wellFormed.bounded
  rw [← final] at bounded
  have tailIndex : view.tailIndex = 2651214 := by
    simp only [unwrapped, trigger, bufferSize] at full claims bounded
    omega
  have location : view.claims = 4294966679 := by
    simp only [unwrapped, bufferSize] at full
    omega
  have unlinked : memory.next (view.buffer view.tailIndex) = none := by
    rw [show view.tailIndex = view.length - 1 by omega, represents.last]
  have position := represents.position view.tailIndex wellFormed.tail_lt
  have claim : EnqueueAccess (memory, .claim data)
      ({ memory with tail := wrap (memory.tail + 1) }, .loadTail data memory.tail) :=
    ⟨trivial, rfl⟩
  have rest := Transition.rest_of_step enqueueAccess_unique claim (returning_enqueue last data)
    enqueues
  have ended : numberOfElements (memory.positionInQueue (view.buffer view.tailIndex)) ≤
      memory.tail := by
    rw [position, tailIndex, represents.tail, location]
    decide
  have endedNext : numberOfElements
      (wrap (memory.positionInQueue (view.buffer view.tailIndex) + 1)) ≤ memory.tail := by
    rw [position, tailIndex, represents.tail, location]
    decide
  exact @two_appended Value { memory with tail := wrap (memory.tail + 1) } data memory.tail
    (view.buffer view.tailIndex) last represents.tailOfQueue unlinked ended endedNext
    (represents.newAddress_ne wellFormed.tail_lt) rest

/-- With more enqueues some call is not orderly. -/
theorem Solo.not_orderly {previous : Option (Address × Nat)}
    (solo : Solo memory .idle .idle view) (early : view.claims < unwrapped)
    (many : unwrapped ≤ view.claims + (enqueued calls).length) :
    ¬Orderly memory previous calls answers := by
  intro orderly
  induction orderly generalizing view with
  | nil => exact absurd many (Nat.not_le.mpr early)
  | @enqueue memory next previous slot data calls answers first _ _ appends _
      inductionHypothesis =>
    have length : (enqueued (.enqueue data :: calls)).length = (enqueued calls).length + 1 := rfl
    rw [length] at many
    rcases Nat.lt_or_ge (view.claims + 1) unwrapped with before | reached
    · have now : view.Early := by
        simp only [View.Early, unwrapped, bufferSize] at before ⊢
        omega
      obtain ⟨_, other, grown, _, _, _, also, after, _, continues⟩ := solo.enqueue now data
      obtain rfl := first.unique also
      have claims := View.claims_append continues
      exact inductionHypothesis after (by rwa [claims]) (by rw [claims]; omega)
    · have twice := solo.wraps (Nat.le_antisymm early reached) first
      exact absurd (twice.trans appends) (Nat.not_succ_le_self _)
  | @dequeue memory next previous answer calls answers first _ inductionHypothesis =>
    obtain ⟨other, taken, also, after, consumes, _⟩ := solo.dequeue
    obtain ⟨_, rfl⟩ := first.unique also
    have claims : taken.claims = view.claims := by rw [View.claims, consumes.claimed, View.claims]
    exact inductionHypothesis after (by rwa [claims]) (by rwa [claims])

/-- In sequential use every call of enqueue writes the slot that follows the one before and appends
one buffer at most, and the queue stays first in, first out, if and only if there are fewer enqueues
than slots in the buffers whose end does not wrap. -/
theorem positions_survive_iff [Inhabited Value] (calls : List (Call Value)) :
    Orderly .construct none calls (fifo [] calls) ↔ (enqueued calls).length < unwrapped := by
  have start : Solo (Memory.construct : Memory Value) .idle .idle .initial := .start
  have none : (View.initial : View Value).claims = 0 := rfl
  constructor
  · intro orderly
    by_contra many
    refine start.not_orderly (by decide : 0 < unwrapped) ?_ orderly
    rw [none, Nat.zero_add]
    exact Nat.not_lt.mp many
  · intro few
    refine start.orderly ?_
    rw [none, Nat.zero_add]
    exact few

/-- Values are enqueued, each one dequeued before the next. -/
def rounds (values : List Value) : List (Call Value) :=
  values.flatMap fun data => [.enqueue data, .dequeue]

theorem enqueued_rounds (values : List Value) : enqueued (rounds values) = values := by
  induction values with
  | nil => rfl
  | cons data values inductionHypothesis => exact congrArg (data :: ·) inductionHypothesis

/-- A queue that is emptied after every enqueue does not survive 4294966680 of them. -/
theorem long_run_breaks : ¬Orderly (.construct : Memory Nat) none
    (rounds (List.replicate 4294966680 7)) (fifo [] (rounds (List.replicate 4294966680 7))) := by
  refine Solo.start.not_orderly (by decide : 0 < unwrapped) ?_
  rw [enqueued_rounds, List.length_replicate]
  decide

end MarketSandbox.MPSCQueue
