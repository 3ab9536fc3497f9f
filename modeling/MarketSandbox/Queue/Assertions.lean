/-
This file says what each thread knows about the queue at each of its steps: a
producer owns an empty slot that carries its value and has an address it once
loaded from the tail; the consumer knows where its scans stand. What a thread
knows survives the steps of the others, for a producer because views only grow,
for the consumer because a producer only appends and fills.
-/

import MarketSandbox.Queue.View

namespace MarketSandbox.MPSCQueue

variable {Value : Type} {view grown : View Value}

/-! ### The producers -/

/-- The location a producer has claimed and not yet filled. -/
def ProducerPc.location : ProducerPc Value → Option Nat
  | .loadTail _ location => some location
  | .compare _ location _ => some location
  | .loadNext _ location _ => some location
  | .exchangeNext _ location _ => some location
  | .exchangeTail _ location _ _ => some location
  | .walk _ location _ _ => some location
  | .loadSlot _ location _ _ _ => some location
  | .publish _ location _ _ _ => some location
  | _ => none

namespace View

/-- The location was claimed for the value and its slot is still empty. -/
def Owned (view : View Value) (data : Value) (location : Nat) : Prop :=
  view.slot location = .EMPTY ∧ view.channel.claimed[location]? = some data

/-- The value's slot has been filled. -/
def Finished (view : View Value) (data : Value) : Prop :=
  ∃ location, view.slot location ≠ .EMPTY ∧ view.channel.claimed[location]? = some data

/-- The address of a buffer that the tail has reached. -/
def Loaded (view : View Value) (address : Address) : Prop :=
  ∃ index ≤ view.tailIndex, address = view.buffer index

/-- A buffer that the tail has reached and behind which another one is needed. -/
def Growable (view : View Value) (address : Address) : Prop :=
  ∃ index ≤ view.tailIndex, address = view.buffer index ∧
    bufferSize * (index + 1) ≤ view.claims + 1

/-- The tail moves on to a buffer just appended, or has already moved. -/
def Linking (view : View Value) (tempTail newBuffer : Address) : Prop :=
  (view.tailIndex + 2 = view.length ∧ tempTail = view.buffer view.tailIndex ∧
      newBuffer = view.buffer (view.tailIndex + 1)) ∨
    ∃ index < view.tailIndex, tempTail = view.buffer index

/-- The buffer holds the slot of the location. -/
def Located (view : View Value) (location prevSize : Nat) (tempTail : Address)
    (isLastBuffer : Bool) : Prop :=
  location / bufferSize ≤ view.tailIndex ∧ tempTail = view.buffer (location / bufferSize) ∧
    prevSize = bufferSize * (location / bufferSize) ∧
    (isLastBuffer = false → location / bufferSize + 1 < view.length)

end View

/-- What a producer knows at its next step. -/
def ProducerPc.Holds (view : View Value) : ProducerPc Value → Prop
  | .idle => True
  | .claim _ => True
  | .loadTail data location => view.Owned data location
  | .compare data location tempTail => view.Owned data location ∧ view.Loaded tempTail
  | .loadNext data location tempTail => view.Owned data location ∧ view.Growable tempTail
  | .exchangeNext data location tempTail => view.Owned data location ∧ view.Growable tempTail
  | .exchangeTail data location tempTail newBuffer =>
    view.Owned data location ∧ view.Linking tempTail newBuffer
  | .walk data location tempTail isLastBuffer =>
    view.Owned data location ∧ ∃ index ≤ view.tailIndex, tempTail = view.buffer index ∧
      location / bufferSize ≤ index ∧
      (isLastBuffer = false → location / bufferSize + 1 < view.length)
  | .loadSlot data location prevSize tempTail isLastBuffer =>
    view.Owned data location ∧ view.Located location prevSize tempTail isLastBuffer
  | .publish data location prevSize tempTail isLastBuffer =>
    view.Owned data location ∧ view.Located location prevSize tempTail isLastBuffer
  | .preallocateNext data tempTail => view.Finished data ∧ view.Growable tempTail
  | .preallocateTail data tempTail newBuffer =>
    view.Finished data ∧ view.Linking tempTail newBuffer
  | .returning data => view.Finished data

/-- What every step does to a view: tickets, buffers and filled slots are only added,
and a buffer is only appended behind the tail. -/
structure View.Grows (view grown : View Value) : Prop where
  claimed : view.channel.claimed <+: grown.channel.claimed
  length_le : view.length ≤ grown.length
  buffer : ∀ index < view.length, grown.buffer index = view.buffer index
  tail_le : view.tailIndex ≤ grown.tailIndex
  append : grown.length ≠ view.length → view.tailIndex + 1 = view.length
  filled : ∀ location, view.slot location ≠ .EMPTY → grown.slot location ≠ .EMPTY
  kept : ∀ early late, view.channel.earlier early late → grown.channel.earlier early late

namespace View.Grows

theorem claimed_get (grows : view.Grows grown) {location : Nat} {data : Value}
    (found : view.channel.claimed[location]? = some data) :
    grown.channel.claimed[location]? = some data := by
  obtain ⟨added, whole⟩ := grows.claimed
  obtain ⟨bound, _⟩ := List.getElem?_eq_some_iff.mp found
  rw [← whole, List.getElem?_append_left bound, found]

theorem claims_le (grows : view.Grows grown) : view.claims ≤ grown.claims :=
  grows.claimed.length_le

theorem finished (grows : view.Grows grown) {data : Value} (finished : view.Finished data) :
    grown.Finished data := by
  obtain ⟨location, filled, found⟩ := finished
  exact ⟨location, grows.filled location filled, grows.claimed_get found⟩

variable (grows : view.Grows grown) (wellFormed : view.WellFormed)
include grows wellFormed

theorem buffer_of_le {index : Nat} (bound : index ≤ view.tailIndex) :
    grown.buffer index = view.buffer index :=
  grows.buffer index (bound.trans_lt wellFormed.tail_lt)

theorem loaded {address : Address} (loaded : view.Loaded address) : grown.Loaded address := by
  obtain ⟨index, bound, rfl⟩ := loaded
  exact ⟨index, bound.trans grows.tail_le, (grows.buffer_of_le wellFormed bound).symm⟩

theorem growable {address : Address} (growable : view.Growable address) :
    grown.Growable address := by
  obtain ⟨index, bound, rfl, needed⟩ := growable
  exact ⟨index, bound.trans grows.tail_le, (grows.buffer_of_le wellFormed bound).symm,
    needed.trans (Nat.add_le_add_right grows.claims_le 1)⟩

theorem linking {tempTail newBuffer : Address} (linking : view.Linking tempTail newBuffer) :
    grown.Linking tempTail newBuffer := by
  have tailAddress := grows.buffer_of_le wellFormed le_rfl
  rcases linking with ⟨pending, rfl, rfl⟩ | ⟨index, bound, rfl⟩
  · rcases grows.tail_le.lt_or_eq with moved | same
    · exact Or.inr ⟨view.tailIndex, moved, tailAddress.symm⟩
    · -- no buffer is appended while the tail lags behind
      have length : grown.length = view.length := by
        by_contra different
        have last := grows.append different
        omega
      refine Or.inl ⟨by omega, ?_, ?_⟩
      · rw [← same, tailAddress]
      · rw [← same, grows.buffer _ (by omega)]
  · exact Or.inr ⟨index, bound.trans_le grows.tail_le,
      (grows.buffer_of_le wellFormed bound.le).symm⟩

theorem located {location prevSize : Nat} {tempTail : Address} {isLastBuffer : Bool}
    (located : view.Located location prevSize tempTail isLastBuffer) :
    grown.Located location prevSize tempTail isLastBuffer := by
  obtain ⟨bound, rfl, size, notLast⟩ := located
  exact ⟨bound.trans grows.tail_le, (grows.buffer_of_le wellFormed bound).symm, size,
    fun last => (notLast last).trans_le grows.length_le⟩

end View.Grows

/-- What a producer knows survives the steps of the others, which do not fill its slot. -/
theorem ProducerPc.Holds.grow {pc : ProducerPc Value} (holds : pc.Holds view)
    (wellFormed : view.WellFormed) (grows : view.Grows grown)
    (kept : ∀ location, pc.location = some location → view.slot location = .EMPTY →
      grown.slot location = .EMPTY) : pc.Holds grown := by
  have owned {data : Value} {location : Nat} (here : pc.location = some location)
      (owned : view.Owned data location) : grown.Owned data location :=
    ⟨kept location here owned.1, grows.claimed_get owned.2⟩
  cases pc with
  | idle => trivial
  | claim => trivial
  | loadTail => exact owned rfl holds
  | compare => exact ⟨owned rfl holds.1, grows.loaded wellFormed holds.2⟩
  | loadNext => exact ⟨owned rfl holds.1, grows.growable wellFormed holds.2⟩
  | exchangeNext => exact ⟨owned rfl holds.1, grows.growable wellFormed holds.2⟩
  | exchangeTail => exact ⟨owned rfl holds.1, grows.linking wellFormed holds.2⟩
  | walk =>
    obtain ⟨index, bound, rfl, reached, notLast⟩ := holds.2
    exact ⟨owned rfl holds.1, index, bound.trans grows.tail_le,
      (grows.buffer_of_le wellFormed bound).symm, reached,
      fun last => (notLast last).trans_le grows.length_le⟩
  | loadSlot => exact ⟨owned rfl holds.1, grows.located wellFormed holds.2⟩
  | publish => exact ⟨owned rfl holds.1, grows.located wellFormed holds.2⟩
  | preallocateNext => exact ⟨grows.finished holds.1, grows.growable wellFormed holds.2⟩
  | preallocateTail => exact ⟨grows.finished holds.1, grows.linking wellFormed holds.2⟩
  | returning => exact grows.finished holds

/-! ### The consumer -/

namespace View

/-- The scan stands at an offset of a reachable buffer. -/
structure Scanning (view : View Value) (tempHeadOfQueue : Address) (tempHead : Nat)
    (moved allHandled : Bool) (index : Nat) : Prop where
  member : index ∈ view.live
  address : tempHeadOfQueue = view.buffer index
  inside : tempHead < bufferSize
  behind : view.front ≤ bufferSize * index + tempHead
  moved_iff : moved = true ↔ index ≠ view.headIndex
  handled : moved = true → allHandled = true →
    ∀ offset < tempHead, view.slot (bufferSize * index + offset) = .HANDLED

/-- The second scan has a filled slot as its target, and has found no filled slot that
was filled before the target was claimed. -/
structure Rescanning (view : View Value) (tempHeadOfQueue : Address) (tempHead : Nat)
    (scanHeadOfQueue : Address) (scanHead target index : Nat) : Prop where
  member : target ∈ view.live
  address : tempHeadOfQueue = view.buffer target
  inside : tempHead < bufferSize
  set : view.slot (bufferSize * target + tempHead) = .SET
  behind : view.front ≤ bufferSize * target + tempHead
  scanMember : index ∈ view.live
  scanAddress : scanHeadOfQueue = view.buffer index
  scanInside : scanHead ≤ bufferSize
  scanBehind : view.front ≤ bufferSize * index + scanHead
  position : bufferSize * index + scanHead ≤ bufferSize * target + tempHead
  checked : ∀ location, view.front ≤ location → location < bufferSize * index + scanHead →
    view.channel.earlier location (bufferSize * target + tempHead) →
    view.slot location ≠ .SET

/-- A reachable buffer behind the head buffer, all of whose slots have been handled. -/
def Foldable (view : View Value) (address : Address) (index : Nat) : Prop :=
  index ∈ view.live ∧ address = view.buffer index ∧ index ≠ view.headIndex ∧ view.Handled index

/-- A handled buffer between two others. -/
def Folding (view : View Value) (address next : Address) (prev : Option Address)
    (index : Nat) : Prop :=
  index < view.tailIndex ∧ view.Handled index ∧ ∃ before first last after,
    view.live = before ++ first :: index :: last :: after ∧ address = view.buffer index ∧
      next = view.buffer last ∧ prev = some (view.buffer first)

/-- A buffer that has been taken out. -/
def Folded (view : View Value) (address next : Address) : Prop :=
  ∃ index < view.tailIndex, index ∉ view.live ∧ address = view.buffer index ∧
    view.Handled index ∧ ∃ last ∈ view.live, last ≠ view.headIndex ∧ next = view.buffer last

end View

/-- What the consumer knows at its next step. -/
def ConsumerPc.Holds (view : View Value) : ConsumerPc Value → Prop
  | .idle => view.back = view.live
  | .moveTail _ => view.back = view.live ∧ view.head = bufferSize
  | .moveNext _ =>
    view.back = view.live ∧ view.head = bufferSize ∧ view.headIndex < view.tailIndex
  | .collect _ next =>
    view.back = view.live ∧ view.head = bufferSize ∧ view.headIndex < view.tailIndex ∧
      ∃ index behind, view.live = view.headIndex :: index :: behind ∧ next = view.buffer index
  | .readHandled => view.back = view.live ∧ view.head < bufferSize
  | .compareBuffer =>
    view.back = view.live ∧ view.head < bufferSize ∧ view.slot view.front ≠ .HANDLED
  | .compareTail =>
    view.back = view.live ∧ view.head < bufferSize ∧ view.slot view.front ≠ .HANDLED
  | .readSet => view.back = view.live ∧ view.head < bufferSize ∧ view.slot view.front ≠ .HANDLED
  | .readEmpty =>
    view.back = view.live ∧ view.head < bufferSize ∧ view.slot view.front ≠ .HANDLED
  | .scan tempHeadOfQueue tempHead moved allHandled =>
    view.back = view.live ∧ view.head < bufferSize ∧
      ∃ index, view.Scanning tempHeadOfQueue tempHead moved allHandled index
  | .scanFlag tempHeadOfQueue tempHead moved allHandled =>
    view.back = view.live ∧ view.head < bufferSize ∧
      ∃ index, view.Scanning tempHeadOfQueue tempHead moved allHandled index
  | .scanNext tempHeadOfQueue =>
    view.back = view.live ∧ view.head < bufferSize ∧
      ∃ index ∈ view.live, tempHeadOfQueue = view.buffer index
  | .foldTail tempHeadOfQueue =>
    view.back = view.live ∧ view.head < bufferSize ∧
      ∃ index, view.Foldable tempHeadOfQueue index
  | .foldNext tempHeadOfQueue =>
    view.back = view.live ∧ view.head < bufferSize ∧
      ∃ index < view.tailIndex, view.Foldable tempHeadOfQueue index
  | .foldPrev tempHeadOfQueue next prev =>
    view.back = view.live ∧ view.head < bufferSize ∧
      ∃ index, view.Folding tempHeadOfQueue next prev index
  | .foldLink tempHeadOfQueue next prev =>
    view.head < bufferSize ∧ ∃ index, view.back = view.live.erase index ∧
      view.Folding tempHeadOfQueue next prev index
  | .foldFree tempHeadOfQueue next =>
    view.back = view.live ∧ view.head < bufferSize ∧ view.Folded tempHeadOfQueue next
  | .rescan tempHeadOfQueue tempHead scanHeadOfQueue scanHead =>
    view.back = view.live ∧ view.head < bufferSize ∧ ∃ target index,
      view.Rescanning tempHeadOfQueue tempHead scanHeadOfQueue scanHead target index
  | .returning _ => view.back = view.live

/-- What a producer's step does to a view, as the consumer sees it. -/
structure View.Produces (view grown : View Value) : Prop extends View.Grows view grown where
  headIndex : grown.headIndex = view.headIndex
  head : grown.head = view.head
  live : (grown.live = view.live ∧ grown.back = view.back) ∨
    (grown.live = view.live ++ [view.length] ∧ grown.back = view.back ++ [view.length])
  slot : ∀ location, view.slot location ≠ .EMPTY → grown.slot location = view.slot location
  handled : ∀ location, grown.slot location = .HANDLED → view.slot location = .HANDLED
  earlier : ∀ early late, late < view.claims → grown.channel.earlier early late →
    view.channel.earlier early late

namespace View.Produces

section

variable (produces : view.Produces grown)
include produces

theorem front_eq : grown.front = view.front := by
  rw [View.front, View.front, produces.headIndex, produces.head]

theorem live_subset {index : Nat} (member : index ∈ view.live) : index ∈ grown.live := by
  rcases produces.live with ⟨same, _⟩ | ⟨appended, _⟩
  · rwa [same]
  · rw [appended]
    exact List.mem_append_left _ member

theorem live_reflects {index : Nat} (bound : index < view.length)
    (member : index ∈ grown.live) : index ∈ view.live := by
  rcases produces.live with ⟨same, _⟩ | ⟨appended, _⟩
  · rwa [same] at member
  · rw [appended] at member
    refine (List.mem_append.mp member).resolve_right fun added => ?_
    exact absurd (List.mem_singleton.mp added) (Nat.ne_of_lt bound)

theorem live_split {front back : List Nat} (whole : view.live = front ++ back) :
    ∃ added, grown.live = front ++ (back ++ added) := by
  rcases produces.live with ⟨same, _⟩ | ⟨appended, _⟩
  · exact ⟨[], by rw [same, whole, List.append_nil]⟩
  · exact ⟨[view.length], by rw [appended, whole, List.append_assoc]⟩

theorem back_eq (same : view.back = view.live) : grown.back = grown.live := by
  rcases produces.live with ⟨live, back⟩ | ⟨live, back⟩
  · rw [live, back, same]
  · rw [live, back, same]

theorem handled_of {index : Nat} (handled : view.Handled index) : grown.Handled index := by
  intro offset inside
  rw [produces.slot]
  · exact handled offset inside
  · rw [handled offset inside]
    exact SlotState.noConfusion

theorem notHandled {location : Nat} (different : view.slot location ≠ .HANDLED) :
    grown.slot location ≠ .HANDLED :=
  fun handled => different (produces.handled location handled)

end

variable (produces : view.Produces grown) (wellFormed : view.WellFormed)
include produces wellFormed

theorem buffer_of_live {index : Nat} (member : index ∈ view.live) :
    grown.buffer index = view.buffer index :=
  produces.buffer index (wellFormed.live_lt index member)

theorem scanning {tempHeadOfQueue : Address} {tempHead index : Nat} {moved allHandled : Bool}
    (scanning : view.Scanning tempHeadOfQueue tempHead moved allHandled index) :
    grown.Scanning tempHeadOfQueue tempHead moved allHandled index where
  member := produces.live_subset scanning.member
  address := scanning.address.trans (produces.buffer_of_live wellFormed scanning.member).symm
  inside := scanning.inside
  behind := produces.front_eq ▸ scanning.behind
  moved_iff := by rw [produces.headIndex, scanning.moved_iff]
  handled first second offset inside := by
    have handled := scanning.handled first second offset inside
    rw [produces.slot _ (by rw [handled]; exact SlotState.noConfusion), handled]

theorem rescanning {tempHeadOfQueue scanHeadOfQueue : Address}
    {tempHead scanHead target index : Nat}
    (rescanning : view.Rescanning tempHeadOfQueue tempHead scanHeadOfQueue scanHead target
      index) :
    grown.Rescanning tempHeadOfQueue tempHead scanHeadOfQueue scanHead target index where
  member := produces.live_subset rescanning.member
  address := rescanning.address.trans (produces.buffer_of_live wellFormed rescanning.member).symm
  inside := rescanning.inside
  set := by
    rw [produces.slot _ (by rw [rescanning.set]; exact SlotState.noConfusion), rescanning.set]
  behind := produces.front_eq ▸ rescanning.behind
  scanMember := produces.live_subset rescanning.scanMember
  scanAddress :=
    rescanning.scanAddress.trans (produces.buffer_of_live wellFormed rescanning.scanMember).symm
  scanInside := rescanning.scanInside
  scanBehind := produces.front_eq ▸ rescanning.scanBehind
  position := rescanning.position
  checked := by
    intro location behind before earlier
    have claimed := wellFormed.claimed (by rw [rescanning.set]; exact SlotState.noConfusion)
    have older := produces.earlier _ _ claimed earlier
    rw [produces.slot _ (wellFormed.earlier_filled older)]
    exact rescanning.checked location (produces.front_eq ▸ behind) before older

theorem foldable {address : Address} {index : Nat} (foldable : view.Foldable address index) :
    grown.Foldable address index := by
  obtain ⟨member, rfl, notHead, handled⟩ := foldable
  exact ⟨produces.live_subset member, (produces.buffer_of_live wellFormed member).symm,
    produces.headIndex ▸ notHead, produces.handled_of handled⟩

theorem folding {address next : Address} {prev : Option Address} {index : Nat}
    (folding : view.Folding address next prev index) :
    grown.Folding address next prev index := by
  obtain ⟨bound, handled, before, first, last, after, whole, rfl, rfl, rfl⟩ := folding
  obtain ⟨added, split⟩ := produces.live_split whole
  have kept {other : Nat} (member : other ∈ view.live) :=
    produces.buffer_of_live wellFormed member
  refine ⟨bound.trans_le produces.tail_le, produces.handled_of handled, before, first, last,
    after ++ added, split, ?_, ?_, ?_⟩
  · exact (kept (by simp [whole])).symm
  · exact (kept (by simp [whole])).symm
  · rw [kept (by simp [whole])]

theorem folded {address next : Address} (folded : view.Folded address next) :
    grown.Folded address next := by
  obtain ⟨index, bound, outside, rfl, handled, last, member, notHead, rfl⟩ := folded
  have below := bound.trans wellFormed.tail_lt
  exact ⟨index, bound.trans_le produces.tail_le,
    fun inside => outside (produces.live_reflects below inside), (produces.buffer _ below).symm,
    produces.handled_of handled, last, produces.live_subset member,
    produces.headIndex ▸ notHead, (produces.buffer_of_live wellFormed member).symm⟩

end View.Produces

/-- What the consumer knows survives the steps of the producers. -/
theorem ConsumerPc.Holds.produce {pc : ConsumerPc Value} (holds : pc.Holds view)
    (wellFormed : view.WellFormed) (produces : view.Produces grown) : pc.Holds grown := by
  have front := produces.front_eq
  cases pc with
  | idle => exact produces.back_eq holds
  | moveTail => exact ⟨produces.back_eq holds.1, produces.head ▸ holds.2⟩
  | moveNext =>
    exact ⟨produces.back_eq holds.1, produces.head ▸ holds.2.1,
      produces.headIndex ▸ holds.2.2.trans_le produces.tail_le⟩
  | collect =>
    obtain ⟨same, full, notLast, index, behind, whole, rfl⟩ := holds
    have start : view.live = [view.headIndex] ++ (index :: behind) := whole
    obtain ⟨added, split⟩ := produces.live_split start
    refine ⟨produces.back_eq same, produces.head ▸ full,
      produces.headIndex ▸ notLast.trans_le produces.tail_le, index, behind ++ added, ?_, ?_⟩
    · rw [produces.headIndex]
      exact split
    · exact (produces.buffer_of_live wellFormed (by simp [whole])).symm
  | readHandled => exact ⟨produces.back_eq holds.1, produces.head ▸ holds.2⟩
  | compareBuffer =>
    exact ⟨produces.back_eq holds.1, produces.head ▸ holds.2.1,
      front ▸ produces.notHandled holds.2.2⟩
  | compareTail =>
    exact ⟨produces.back_eq holds.1, produces.head ▸ holds.2.1,
      front ▸ produces.notHandled holds.2.2⟩
  | readSet =>
    exact ⟨produces.back_eq holds.1, produces.head ▸ holds.2.1,
      front ▸ produces.notHandled holds.2.2⟩
  | readEmpty =>
    exact ⟨produces.back_eq holds.1, produces.head ▸ holds.2.1,
      front ▸ produces.notHandled holds.2.2⟩
  | scan =>
    obtain ⟨same, inside, index, scanning⟩ := holds
    exact ⟨produces.back_eq same, produces.head ▸ inside, index,
      produces.scanning wellFormed scanning⟩
  | scanFlag =>
    obtain ⟨same, inside, index, scanning⟩ := holds
    exact ⟨produces.back_eq same, produces.head ▸ inside, index,
      produces.scanning wellFormed scanning⟩
  | scanNext =>
    obtain ⟨same, inside, index, member, rfl⟩ := holds
    exact ⟨produces.back_eq same, produces.head ▸ inside, index, produces.live_subset member,
      (produces.buffer_of_live wellFormed member).symm⟩
  | foldTail =>
    obtain ⟨same, inside, index, foldable⟩ := holds
    exact ⟨produces.back_eq same, produces.head ▸ inside, index,
      produces.foldable wellFormed foldable⟩
  | foldNext =>
    obtain ⟨same, inside, index, bound, foldable⟩ := holds
    exact ⟨produces.back_eq same, produces.head ▸ inside, index,
      bound.trans_le produces.tail_le, produces.foldable wellFormed foldable⟩
  | foldPrev =>
    obtain ⟨same, inside, index, folding⟩ := holds
    exact ⟨produces.back_eq same, produces.head ▸ inside, index,
      produces.folding wellFormed folding⟩
  | foldLink =>
    obtain ⟨inside, index, unlinked, folding⟩ := holds
    refine ⟨produces.head ▸ inside, index, ?_, produces.folding wellFormed folding⟩
    obtain ⟨_, _, before, first, last, after, whole, _⟩ := folding
    have member : index ∈ view.live := by simp [whole]
    rcases produces.live with ⟨live, back⟩ | ⟨live, back⟩
    · rw [live, back, unlinked]
    · rw [live, back, unlinked, List.erase_append_left _ member]
  | foldFree =>
    obtain ⟨same, inside, folded⟩ := holds
    exact ⟨produces.back_eq same, produces.head ▸ inside, produces.folded wellFormed folded⟩
  | rescan =>
    obtain ⟨same, inside, target, index, rescanning⟩ := holds
    exact ⟨produces.back_eq same, produces.head ▸ inside, target, index,
      produces.rescanning wellFormed rescanning⟩
  | returning => exact produces.back_eq holds

end MarketSandbox.MPSCQueue
