/-
This file says what the memory of the queue holds when there is one producer,
however many values it enqueues. The buffers are linked in the order of their
addresses, and the producer fills their slots from the front to the back, one
after another up to the last slot of the last buffer whose end does not wrap.
That slot is left out: from there on the producer appends buffers until the end
of one lies beyond its location, and fills slots of that one. The consumer's
head never gets past the slot left out. A location that no end lies beyond
keeps the producer appending for ever, so that the counter itself never wraps.
-/

import MarketSandbox.Queue.Wraparound

namespace MarketSandbox.MPSCQueue

variable {Value : Type}

/-! ### Where the locations go -/

/-- The slot that is left out, and the number of values filled in before it. -/
def gap : Nat := unwrapped - 1

theorem gap_eq : gap = 4294966679 := rfl

theorem numberOfElements_wrap (position : Nat) :
    numberOfElements (wrap position) = wrap (bufferSize * position) := by
  rw [numberOfElements, wrap, wrap, wrap, Nat.mul_mod_mod]

theorem prevSize_wrap (buffer : Nat) :
    prevSize (wrap (buffer + 1)) = wrap (bufferSize * buffer) := by
  have predecessor : wrap (wrap (buffer + 1) + 2 ^ 32 - 1) = wrap buffer := by
    simp only [wrap]
    omega
  rw [prevSize, predecessor, wrap, wrap, wrap, Nat.mul_mod_mod]

/-- The last buffer suits the values published. -/
structure Room (entries : List (Nat × Value)) (last : Nat) : Prop where
  early : entries.length < gap → last = (entries.length + 1) / bufferSize
  late : gap ≤ entries.length → unwrapped ≤ bufferSize * last ∧ ∀ entry ∈ entries,
    entry.1 < bufferSize * last + (entries.length - wrap (bufferSize * last))

section Room

variable {entries : List (Nat × Value)} {last : Nat}

theorem Room.empty : Room ([] : List (Nat × Value)) 0 where
  early _ := (by decide : 0 = (0 + 1) / bufferSize)
  late behind := absurd behind (by decide : ¬gap ≤ 0)

/-- Before the gap the last buffer ends beyond the next location. -/
theorem Room.ends_beyond (room : Room entries last) (before : entries.length < gap) :
    entries.length < wrap (bufferSize * (last + 1)) := by
  have isLast := room.early before
  rw [gap_eq] at before
  simp only [wrap, bufferSize] at isLast ⊢
  omega

/-- Behind the gap a buffer may be appended. -/
theorem Room.append (room : Room entries last) (behind : gap ≤ entries.length)
    (bound : ∀ entry ∈ entries, entry.1 < bufferSize * (last + 1)) : Room entries (last + 1) where
  early before := absurd behind (Nat.not_le.mpr before)
  late _ := by
    refine ⟨(room.late behind).1.trans (Nat.mul_le_mul_left _ (Nat.le_succ _)), ?_⟩
    exact fun entry member => (bound entry member).trans_le (Nat.le_add_right ..)

end Room

/-! ### The values published -/

/-- What one producer has published, in order: the slots, counted along the buffers, with their
values; and how many of the values have been taken. -/
structure Transcript (Value : Type) where
  entries : List (Nat × Value)
  taken : Nat

namespace Transcript

variable {transcript : Transcript Value}

/-- The values published. -/
def values (transcript : Transcript Value) : List Value := transcript.entries.map Prod.snd

/-- The slot at which the consumer's head stands. -/
def front (transcript : Transcript Value) : Nat := min transcript.taken gap

/-- Nothing has been published. -/
def empty : Transcript Value := ⟨[], 0⟩

/-- A value is published. -/
def publish (transcript : Transcript Value) (slot : Nat) (data : Value) : Transcript Value :=
  { transcript with entries := transcript.entries ++ [(slot, data)] }

/-- The next value is taken. -/
def take (transcript : Transcript Value) : Transcript Value :=
  { transcript with taken := transcript.taken + 1 }

/-- The slots are filled in order, without a gap before the slot left out; behind it no first slot
of a buffer is filled. -/
structure Sound (transcript : Transcript Value) : Prop where
  taken : transcript.taken ≤ transcript.entries.length
  few : transcript.entries.length + 4 ≤ 2 ^ 32
  sorted : transcript.entries.Pairwise fun first second => first.1 < second.1
  early : ∀ index < gap, ∀ entry, transcript.entries[index]? = some entry → entry.1 = index
  late : ∀ index, gap ≤ index → ∀ entry, transcript.entries[index]? = some entry →
    gap < entry.1 ∧ entry.1 % bufferSize ≠ 0

theorem Sound.empty : (Transcript.empty : Transcript Value).Sound where
  taken := le_rfl
  few := (by decide : 0 + 4 ≤ 2 ^ 32)
  sorted := .nil
  early _ _ _ isEntry := by cases isEntry
  late _ _ _ isEntry := by cases isEntry

theorem Sound.lt_of_lt (sound : transcript.Sound) {early late : Nat} {first second : Nat × Value}
    (isFirst : transcript.entries[early]? = some first)
    (isSecond : transcript.entries[late]? = some second) (less : early < late) :
    first.1 < second.1 := by
  obtain ⟨below, rfl⟩ := List.getElem?_eq_some_iff.mp isFirst
  obtain ⟨within, rfl⟩ := List.getElem?_eq_some_iff.mp isSecond
  exact List.pairwise_iff_getElem.mp sound.sorted early late below within less

/-- What has been taken lies before the head, or behind the slot left out. -/
theorem Sound.gap_le_of_taken (sound : transcript.Sound) {index : Nat} {entry : Nat × Value}
    (isEntry : transcript.entries[index]? = some entry) (taken : index < transcript.taken)
    (ahead : transcript.front ≤ entry.1) : gap ≤ index := by
  refine Nat.le_of_not_lt fun before => ?_
  rw [sound.early index before entry isEntry, front] at ahead
  omega

/-- The head stands at the next value to be taken, or at the slot left out. -/
theorem Sound.next_slot (sound : transcript.Sound) {entry : Nat × Value}
    (next : transcript.entries[transcript.taken]? = some entry) :
    (entry.1 = transcript.front ∧ transcript.take.front = transcript.front + 1) ∨
      (transcript.front < entry.1 ∧ transcript.front = gap ∧ transcript.take.front = gap) := by
  simp only [front, take]
  rcases Nat.lt_or_ge transcript.taken gap with before | behind
  · have same := sound.early _ before entry next
    exact Or.inl ⟨by omega, by omega⟩
  · have beyond := (sound.late _ behind entry next).1
    exact Or.inr ⟨by omega, by omega, by omega⟩

/-- What has not been taken lies at the head or behind it. -/
theorem Sound.front_le (sound : transcript.Sound) {index : Nat} {entry : Nat × Value}
    (waiting : transcript.taken ≤ index) (isEntry : transcript.entries[index]? = some entry) :
    transcript.front ≤ entry.1 := by
  rw [front]
  rcases Nat.lt_or_ge index gap with before | behind
  · rw [sound.early index before entry isEntry]
    exact (min_le_left _ _).trans waiting
  · exact (min_le_right _ _).trans (sound.late index behind entry isEntry).1.le

/-- The entry before all others that have not been taken is the next one. -/
theorem Sound.eq_taken (sound : transcript.Sound) {index : Nat} {entry : Nat × Value}
    (isEntry : transcript.entries[index]? = some entry) (waiting : transcript.taken ≤ index)
    (first : ∀ other, transcript.entries[transcript.taken]? = some other → entry.1 ≤ other.1) :
    index = transcript.taken := by
  refine ((Nat.eq_or_lt_of_le waiting).symm.resolve_left fun behind => ?_).symm
  have bound := behind.trans (List.getElem?_eq_some_iff.mp isEntry).1
  have next := List.getElem?_eq_getElem bound
  exact absurd (first _ next) (Nat.not_le.mpr (sound.lt_of_lt next isEntry behind))

theorem Sound.take (sound : transcript.Sound)
    (waiting : transcript.taken < transcript.entries.length) : transcript.take.Sound :=
  ⟨waiting, sound.few, sound.sorted, sound.early, sound.late⟩

/-- An entry of a transcript to which a value has been added. -/
theorem getElem?_publish {slot index : Nat} {data : Value} {entry : Nat × Value}
    (isEntry : (transcript.publish slot data).entries[index]? = some entry) :
    transcript.entries[index]? = some entry ∨
      index = transcript.entries.length ∧ entry = (slot, data) := by
  rcases Nat.lt_or_ge index transcript.entries.length with before | behind
  · exact Or.inl ((List.getElem?_append_left before).symm.trans isEntry)
  · have added : [(slot, data)][index - transcript.entries.length]? = some entry :=
      (List.getElem?_append_right behind).symm.trans isEntry
    obtain ⟨bound, same⟩ := List.getElem?_eq_some_iff.mp added
    have only : index - transcript.entries.length = 0 := Nat.lt_one_iff.mp bound
    simp only [only, List.getElem_cons_zero] at same
    exact Or.inr ⟨Nat.le_antisymm (Nat.sub_eq_zero_iff_le.mp only) behind, same.symm⟩

theorem Sound.publish (sound : transcript.Sound) {slot : Nat} (data : Value)
    (few : transcript.entries.length + 4 < 2 ^ 32)
    (below : ∀ entry ∈ transcript.entries, entry.1 < slot)
    (early : transcript.entries.length < gap → slot = transcript.entries.length)
    (late : gap ≤ transcript.entries.length → gap < slot ∧ slot % bufferSize ≠ 0) :
    (transcript.publish slot data).Sound where
  taken := by
    rw [Transcript.publish, List.length_append]
    exact sound.taken.trans (Nat.le_add_right ..)
  few := by
    rw [Transcript.publish, List.length_append, List.length_singleton]
    omega
  sorted := by
    refine List.pairwise_append.mpr ⟨sound.sorted, List.pairwise_singleton .., ?_⟩
    intro entry member other added
    obtain rfl := List.mem_singleton.mp added
    exact below entry member
  early index before entry isEntry := by
    rcases getElem?_publish isEntry with old | ⟨rfl, rfl⟩
    · exact sound.early index before entry old
    · exact early before
  late index behind entry isEntry := by
    rcases getElem?_publish isEntry with old | ⟨rfl, rfl⟩
    · exact sound.late index behind entry old
    · exact late behind

theorem values_publish (slot : Nat) (data : Value) :
    (transcript.publish slot data).values = transcript.values ++ [data] :=
  List.map_append

/-- The value that is taken. -/
theorem take_values {entry : Nat × Value}
    (next : transcript.entries[transcript.taken]? = some entry) :
    transcript.values.take transcript.take.taken =
      transcript.values.take transcript.taken ++ [entry.2] := by
  obtain ⟨bound, isEntry⟩ := List.getElem?_eq_some_iff.mp next
  have within : transcript.taken < transcript.values.length := by
    rwa [values, List.length_map]
  rw [Transcript.take, List.take_add_one, List.getElem?_eq_getElem within]
  simp only [values, List.getElem_map, isEntry, Option.toList_some]

end Transcript

/-! ### What the memory holds -/

/-- The memory holds the transcript: the chain of the buffers, the consumer's head, and the slots
with their values. -/
structure Holds (memory : Memory Value) (transcript : Transcript Value) : Prop where
  allocated : 0 < memory.allocated
  position : ∀ buffer : Nat, buffer < memory.allocated →
    memory.positionInQueue buffer = wrap (buffer + 1)
  next : ∀ buffer : Nat, buffer + 1 < memory.allocated → memory.next buffer = some (buffer + 1)
  last : ∀ buffer : Nat, buffer + 1 = memory.allocated → memory.next buffer = none
  prev : ∀ buffer : Nat, buffer + 1 < memory.allocated → memory.prev (buffer + 1) = some buffer
  garbage : memory.garbageListHead = none
  reached : memory.headOfQueue < memory.allocated
  heads : ∀ buffer : Nat, memory.headOfQueue < buffer → buffer < memory.allocated →
    memory.head buffer = 0
  head : memory.head memory.headOfQueue ≤ bufferSize
  front : bufferSize * memory.headOfQueue + memory.head memory.headOfQueue = transcript.front
  bound : ∀ entry ∈ transcript.entries, entry.1 < bufferSize * memory.allocated
  empty : ∀ buffer offset : Nat, buffer < memory.allocated → offset < bufferSize →
    (∀ entry ∈ transcript.entries, entry.1 ≠ bufferSize * buffer + offset) →
      memory.isSet buffer offset = .EMPTY
  filled : ∀ (index buffer offset : Nat) (data : Value), offset < bufferSize →
    transcript.entries[index]? = some (bufferSize * buffer + offset, data) →
      memory.data buffer offset = data ∧
        (transcript.taken ≤ index → memory.isSet buffer offset = .SET) ∧
        (index < transcript.taken → transcript.front ≤ bufferSize * buffer + offset →
          memory.isSet buffer offset = .HANDLED)

namespace Holds

variable {memory : Memory Value} {transcript : Transcript Value}

theorem construct [Inhabited Value] : Holds (.construct : Memory Value) .empty where
  allocated := Nat.one_pos
  position buffer below := by
    obtain rfl := Nat.lt_one_iff.mp below
    rfl
  next buffer within := absurd (Nat.succ_lt_succ_iff.mp within) (Nat.not_lt_zero _)
  last _ _ := rfl
  prev buffer within := absurd (Nat.succ_lt_succ_iff.mp within) (Nat.not_lt_zero _)
  garbage := rfl
  reached := Nat.one_pos
  heads _ _ _ := rfl
  head := Nat.zero_le _
  front := rfl
  bound _ member := absurd member List.not_mem_nil
  empty _ _ _ _ _ := rfl
  filled _ _ _ _ _ isEntry := by cases isEntry

/-- A slot that is set holds a value that has not been taken, unless it lies before the head. -/
theorem entry_of_set (holds : Holds memory transcript) {buffer offset : Nat}
    (within : buffer < memory.allocated) (inside : offset < bufferSize)
    (ahead : transcript.front ≤ bufferSize * buffer + offset)
    (set : memory.isSet buffer offset = .SET) :
    ∃ index, transcript.taken ≤ index ∧ transcript.entries[index]? =
      some (bufferSize * buffer + offset, memory.data buffer offset) := by
  by_contra missing
  have unfilled : ∀ entry ∈ transcript.entries, entry.1 ≠ bufferSize * buffer + offset := by
    rintro ⟨slot, data⟩ member rfl
    obtain ⟨index, isEntry⟩ := List.mem_iff_getElem?.mp member
    obtain ⟨same, _, handled⟩ := holds.filled index buffer offset data inside isEntry
    rcases Nat.lt_or_ge index transcript.taken with before | behind
    · rw [handled before ahead] at set
      cases set
    · exact missing ⟨index, behind, by rw [isEntry, same]⟩
  rw [holds.empty buffer offset within inside unfilled] at set
  cases set

/-- A slot that is not set, and lies at the head or behind it, holds no value to be taken. -/
theorem ne_of_not_set (holds : Holds memory transcript) {buffer offset index : Nat}
    {entry : Nat × Value} (inside : offset < bufferSize)
    (unset : memory.isSet buffer offset ≠ .SET) (waiting : transcript.taken ≤ index)
    (isEntry : transcript.entries[index]? = some entry) :
    entry.1 ≠ bufferSize * buffer + offset := by
  obtain ⟨slot, data⟩ := entry
  rintro rfl
  exact unset ((holds.filled index buffer offset data inside isEntry).2.1 waiting)

/-- A slot at the head or behind it that has been handled lies behind the slot left out, and is not
the first of its buffer. -/
theorem behind_of_handled (holds : Holds memory transcript) (sound : transcript.Sound)
    {buffer offset : Nat} (within : buffer < memory.allocated) (inside : offset < bufferSize)
    (ahead : transcript.front ≤ bufferSize * buffer + offset)
    (handled : memory.isSet buffer offset = .HANDLED) :
    transcript.front < bufferSize * buffer + offset ∧ offset ≠ 0 := by
  by_cases filled : ∃ entry ∈ transcript.entries, entry.1 = bufferSize * buffer + offset
  · obtain ⟨⟨slot, data⟩, member, rfl⟩ := filled
    obtain ⟨index, isEntry⟩ := List.mem_iff_getElem?.mp member
    rcases Nat.lt_or_ge index transcript.taken with before | behind
    · obtain ⟨beyond, notFirst⟩ :=
        sound.late index (sound.gap_le_of_taken isEntry before ahead) _ isEntry
      refine ⟨(min_le_right _ _).trans_lt beyond, ?_⟩
      rintro rfl
      exact notFirst (Nat.mul_mod_right ..)
    · rw [(holds.filled index buffer offset data inside isEntry).2.1 behind] at handled
      cases handled
  · have unfilled : ∀ entry ∈ transcript.entries, entry.1 ≠ bufferSize * buffer + offset :=
      fun entry member same => filled ⟨entry, member, same⟩
    rw [holds.empty buffer offset within inside unfilled] at handled
    cases handled

/-! ### Writing the memory -/

/-- A buffer is appended. -/
theorem linkNext (holds : Holds memory transcript) {buffer : Nat}
    (last : buffer + 1 = memory.allocated) :
    Holds (memory.linkNext buffer) transcript where
  allocated := Nat.succ_pos _
  position other below := by
    change Function.update memory.positionInQueue memory.allocated
      (wrap (memory.positionInQueue buffer + 1)) other = wrap (other + 1)
    rcases Nat.lt_succ_iff_lt_or_eq.mp below with old | rfl
    · rw [Function.update_of_ne old.ne, holds.position other old]
    · rw [Function.update_self, holds.position buffer (last ▸ Nat.lt_succ_self _), ← last]
      simp only [wrap]
      omega
  next other within := by
    change Function.update (Function.update memory.next memory.allocated none) buffer
      (some memory.allocated) other = some (other + 1)
    have old : other < memory.allocated := Nat.succ_lt_succ_iff.mp within
    by_cases same : other = buffer
    · rw [same, Function.update_self, last]
    · rw [Function.update_of_ne same, Function.update_of_ne old.ne]
      exact holds.next other (by omega)
  last other isLast := by
    obtain rfl : other = memory.allocated := Nat.succ_injective isLast
    change Function.update (Function.update memory.next memory.allocated none) buffer
      (some memory.allocated) memory.allocated = none
    have below : buffer < memory.allocated := last ▸ Nat.lt_succ_self _
    rw [Function.update_of_ne below.ne', Function.update_self]
  prev other within := by
    change Function.update memory.prev memory.allocated (some buffer) (other + 1) = some other
    have old : other < memory.allocated := Nat.succ_lt_succ_iff.mp within
    by_cases same : other + 1 = memory.allocated
    · rw [same, Function.update_self]
      exact congrArg some (Nat.succ_injective (last.trans same.symm))
    · rw [Function.update_of_ne same]
      exact holds.prev other (by omega)
  garbage := holds.garbage
  reached := holds.reached.trans (Nat.lt_succ_self _)
  heads other beyond below := by
    change Function.update memory.head memory.allocated 0 other = 0
    rcases Nat.lt_succ_iff_lt_or_eq.mp below with old | rfl
    · rw [Function.update_of_ne old.ne]
      exact holds.heads other beyond old
    · rw [Function.update_self]
  head := by
    change Function.update memory.head memory.allocated 0 memory.headOfQueue ≤ bufferSize
    rw [Function.update_of_ne holds.reached.ne]
    exact holds.head
  front := by
    change bufferSize * memory.headOfQueue +
      Function.update memory.head memory.allocated 0 memory.headOfQueue = transcript.front
    rw [Function.update_of_ne holds.reached.ne]
    exact holds.front
  bound entry member :=
    (holds.bound entry member).trans_le (Nat.mul_le_mul_left _ (Nat.le_succ _))
  empty other offset below inside unfilled := by
    change Function.update memory.isSet memory.allocated (fun _ => .EMPTY) other offset = .EMPTY
    rcases Nat.lt_succ_iff_lt_or_eq.mp below with old | rfl
    · rw [Function.update_of_ne old.ne]
      exact holds.empty other offset old inside unfilled
    · rw [Function.update_self]
  filled index other offset data inside isEntry := by
    have old : other < memory.allocated := by
      have below := holds.bound _ (List.mem_of_getElem? isEntry)
      simp only [bufferSize] at below inside
      omega
    change memory.data other offset = data ∧
      (_ → Function.update memory.isSet memory.allocated (fun _ => .EMPTY) other offset = .SET) ∧
      (_ → _ → Function.update memory.isSet memory.allocated (fun _ => .EMPTY) other offset =
        .HANDLED)
    rw [Function.update_of_ne old.ne]
    exact holds.filled index other offset data inside isEntry

/-- A value is published. -/
theorem fillSlot (holds : Holds memory transcript) {buffer offset : Nat} (data : Value)
    (within : buffer < memory.allocated) (inside : offset < bufferSize)
    (taken : transcript.taken ≤ transcript.entries.length)
    (below : ∀ entry ∈ transcript.entries, entry.1 < bufferSize * buffer + offset) :
    Holds (memory.fillSlot buffer offset data)
      (transcript.publish (bufferSize * buffer + offset) data) :=
  { holds with
    bound := by
      intro entry member
      rcases List.mem_append.mp member with old | added
      · exact holds.bound entry old
      · obtain rfl := List.mem_singleton.mp added
        have most := Nat.mul_le_mul_left bufferSize (Nat.succ_le_of_lt within)
        rw [Nat.mul_succ] at most
        exact (Nat.add_lt_add_left inside _).trans_le most
    empty := by
      intro other position before place unfilled
      have apart : ¬(other = buffer ∧ position = offset) := by
        rintro ⟨rfl, rfl⟩
        exact unfilled _ (List.mem_append_right _ (List.mem_singleton_self _)) rfl
      refine (update_entry memory.isSet buffer other offset position .SET).trans ?_
      rw [if_neg apart]
      exact holds.empty other position before place fun entry member =>
        unfilled entry (List.mem_append_left _ member)
    filled := by
      intro index other position value place isEntry
      have isSet := update_entry memory.isSet buffer other offset position .SET
      have isData := update_entry memory.data buffer other offset position data
      rcases Transcript.getElem?_publish isEntry with old | ⟨rfl, same⟩
      · have apart : ¬(other = buffer ∧ position = offset) := by
          rintro ⟨rfl, rfl⟩
          exact lt_irrefl _ (below _ (List.mem_of_getElem? old))
        rw [if_neg apart] at isSet isData
        obtain ⟨sameData, set, handled⟩ := holds.filled index other position value place old
        exact ⟨isData.trans sameData, fun waiting => isSet.trans (set waiting),
          fun before ahead => isSet.trans (handled before ahead)⟩
      · obtain ⟨sameSlot, rfl⟩ := Prod.mk.inj same
        rw [if_pos (location_injective place inside sameSlot)] at isSet isData
        exact ⟨isData, fun _ => isSet, fun before => absurd taken (Nat.not_le.mpr before)⟩ }

/-- The value of the slot at the head is taken. -/
theorem advanceHead (holds : Holds memory transcript) (sound : transcript.Sound)
    (inside : memory.head memory.headOfQueue < bufferSize) {data : Value}
    (next : transcript.entries[transcript.taken]? = some
      (bufferSize * memory.headOfQueue + memory.head memory.headOfQueue, data)) :
    Holds memory.advanceHead transcript.take := by
  have grown : transcript.take.front = transcript.front + 1 := by
    rcases sound.next_slot next with ⟨_, grown⟩ | ⟨beyond, _⟩
    · exact grown
    · exact absurd beyond (holds.front ▸ lt_irrefl _)
  have head : memory.advanceHead.head memory.headOfQueue =
      memory.head memory.headOfQueue + 1 := Function.update_self ..
  exact { holds with
    heads := fun buffer beyond below =>
      (Function.update_of_ne beyond.ne' ..).trans (holds.heads buffer beyond below)
    head := head.trans_le inside
    front := by
      change bufferSize * memory.headOfQueue + memory.advanceHead.head memory.headOfQueue = _
      rw [head, grown, ← holds.front, Nat.add_assoc]
    filled := by
      intro index buffer offset value place isEntry
      obtain ⟨sameData, set, handled⟩ := holds.filled index buffer offset value place isEntry
      refine ⟨sameData, fun waiting => set (Nat.le_of_succ_le waiting), fun before ahead => ?_⟩
      rw [grown] at ahead
      refine handled (Nat.lt_of_le_of_ne (Nat.le_of_lt_succ before) ?_) (Nat.le_of_succ_le ahead)
      rintro rfl
      have same := congrArg Prod.fst (Option.some.inj (isEntry.symm.trans next))
      rw [holds.front] at same
      exact absurd ahead (Nat.not_le.mpr (same.trans_lt (Nat.lt_succ_self _))) }

/-- The value of a slot behind the head is taken. -/
theorem storeSlot (holds : Holds memory transcript) (sound : transcript.Sound)
    {buffer offset : Nat} (inside : offset < bufferSize) {data : Value}
    (next : transcript.entries[transcript.taken]? = some (bufferSize * buffer + offset, data))
    (behind : transcript.front < bufferSize * buffer + offset) :
    Holds (memory.storeSlot buffer offset .HANDLED) transcript.take := by
  have still : transcript.take.front = transcript.front := by
    rcases sound.next_slot next with ⟨same, _⟩ | ⟨_, before, after⟩
    · exact absurd behind (same ▸ lt_irrefl _)
    · rw [before, after]
  have isSet (other position : Nat) :=
    update_entry memory.isSet buffer other offset position .HANDLED
  exact { holds with
    front := holds.front.trans still.symm
    empty := by
      intro other position before place unfilled
      have apart : ¬(other = buffer ∧ position = offset) := by
        rintro ⟨rfl, rfl⟩
        exact unfilled _ (List.mem_of_getElem? next) rfl
      refine (isSet other position).trans ?_
      rw [if_neg apart]
      exact holds.empty other position before place unfilled
    filled := by
      intro index other position value place isEntry
      obtain ⟨sameData, set, handled⟩ := holds.filled index other position value place isEntry
      rw [still]
      by_cases here : other = buffer ∧ position = offset
      · obtain ⟨rfl, rfl⟩ := here
        refine ⟨sameData, fun waiting => ?_, fun _ _ => (isSet ..).trans (if_pos ⟨rfl, rfl⟩)⟩
        exact absurd (sound.lt_of_lt next isEntry waiting) (lt_irrefl _)
      · refine ⟨sameData, fun waiting => ?_, fun before ahead => ?_⟩
        · exact (isSet ..).trans ((if_neg here).trans (set (Nat.le_of_succ_le waiting)))
        · refine (isSet ..).trans ((if_neg here).trans (handled ?_ ahead))
          refine Nat.lt_of_le_of_ne (Nat.le_of_lt_succ before) ?_
          rintro rfl
          have same := congrArg Prod.fst (Option.some.inj (isEntry.symm.trans next))
          exact here (location_injective place inside same) }

/-- The state of a slot before the head does not matter. -/
theorem storeSlot_before (holds : Holds memory transcript) (sound : transcript.Sound)
    {buffer offset : Nat} (inside : offset < bufferSize) {entry : Nat × Value}
    (member : entry ∈ transcript.entries) (same : entry.1 = bufferSize * buffer + offset)
    (before : bufferSize * buffer + offset < transcript.front) :
    Holds (memory.storeSlot buffer offset .HANDLED) transcript := by
  have isSet (other position : Nat) :=
    update_entry memory.isSet buffer other offset position .HANDLED
  exact { holds with
    empty := by
      intro other position within place unfilled
      have apart : ¬(other = buffer ∧ position = offset) := by
        rintro ⟨rfl, rfl⟩
        exact unfilled entry member same
      refine (isSet other position).trans ?_
      rw [if_neg apart]
      exact holds.empty other position within place unfilled
    filled := by
      intro index other position value place isEntry
      obtain ⟨sameData, set, handled⟩ := holds.filled index other position value place isEntry
      by_cases here : other = buffer ∧ position = offset
      · obtain ⟨rfl, rfl⟩ := here
        refine ⟨sameData, fun waiting => ?_, fun _ ahead => absurd before (Nat.not_lt.mpr ahead)⟩
        rw [Transcript.front] at before
        have early : gap ≤ index → gap < bufferSize * other + position :=
          fun behind => (sound.late index behind _ isEntry).1
        have place := sound.early index (Nat.lt_of_not_le fun behind => by
          have := early behind
          omega) _ isEntry
        simp only at place
        omega
      · exact ⟨sameData, fun waiting => (isSet ..).trans ((if_neg here).trans (set waiting)),
          fun taken ahead => (isSet ..).trans ((if_neg here).trans (handled taken ahead))⟩ }

/-- The head moves to the next buffer. -/
theorem deleteHead (holds : Holds memory transcript)
    (done : memory.head memory.headOfQueue = bufferSize)
    (within : memory.headOfQueue + 1 < memory.allocated) :
    Holds (memory.deleteHead (memory.headOfQueue + 1)) transcript :=
  have fresh : memory.head (memory.headOfQueue + 1) = 0 :=
    holds.heads _ (Nat.lt_succ_self _) within
  { holds with
    reached := within
    heads := fun buffer beyond below =>
      holds.heads buffer ((Nat.lt_succ_self _).trans beyond) below
    head := by
      change memory.head (memory.headOfQueue + 1) ≤ bufferSize
      rw [fresh]
      exact Nat.zero_le _
    front := by
      change bufferSize * (memory.headOfQueue + 1) + memory.head (memory.headOfQueue + 1) = _
      rw [fresh, ← holds.front, done]
      rfl }

end Holds

end MarketSandbox.MPSCQueue
