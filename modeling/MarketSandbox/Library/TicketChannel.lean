/-
This file develops an abstract channel with tickets. A sender claims the next
ticket for its value, publishes the ticket some time later, and a receiver
delivers published tickets, each once, in any order that respects the tickets
already published when a ticket was claimed. A channel that follows these rules
delivers no value twice, and two values whose publication and claim are ordered
in that order.
-/

import Mathlib.Data.List.Induction
import Mathlib.Data.List.Nodup

/-- A channel: the values in ticket order, the tickets published so far, the
tickets that were published when a ticket was claimed, and the tickets delivered
so far. -/
structure TicketChannel (Value : Type) where
  claimed : List Value
  published : Nat → Prop
  earlier : Nat → Nat → Prop
  delivered : List Nat

namespace TicketChannel

variable {Value : Type} {channel : TicketChannel Value} {value : Value} {ticket : Nat}

/-- The channel nobody has used. -/
def empty : TicketChannel Value where
  claimed := []
  published _ := False
  earlier _ _ := False
  delivered := []

/-- The next ticket is claimed for a value. -/
def claim (channel : TicketChannel Value) (value : Value) : TicketChannel Value where
  claimed := channel.claimed ++ [value]
  published := channel.published
  earlier early late :=
    (late = channel.claimed.length ∧ channel.published early) ∨ channel.earlier early late
  delivered := channel.delivered

/-- A ticket is published. -/
def publish (channel : TicketChannel Value) (ticket : Nat) : TicketChannel Value :=
  { channel with published := fun other => other = ticket ∨ channel.published other }

/-- A ticket is delivered. -/
def deliver (channel : TicketChannel Value) (ticket : Nat) : TicketChannel Value :=
  { channel with delivered := channel.delivered ++ [ticket] }

/-- The values delivered so far, in the order of their delivery. -/
def values (channel : TicketChannel Value) : List Value :=
  channel.delivered.filterMap fun ticket => channel.claimed[ticket]?

/-- A channel whose tickets have been used by the rules. -/
structure Ordered (channel : TicketChannel Value) : Prop where
  published_claimed : ∀ ticket, channel.published ticket → ticket < channel.claimed.length
  earlier_lt : ∀ early late, channel.earlier early late → early < late
  earlier_published : ∀ early late, channel.earlier early late → channel.published early
  delivered_published : ∀ ticket ∈ channel.delivered, channel.published ticket
  delivered_nodup : channel.delivered.Nodup
  delivered_ordered : ∀ front ticket back, channel.delivered = front ++ ticket :: back →
    ∀ early, channel.earlier early ticket → early ∈ front

/-! ### The rules keep the order -/

theorem Ordered.empty : Ordered (empty : TicketChannel Value) where
  published_claimed _ published := published.elim
  earlier_lt _ _ earlier := earlier.elim
  earlier_published _ _ earlier := earlier.elim
  delivered_published _ member := by cases member
  delivered_nodup := List.nodup_nil
  delivered_ordered front ticket back whole := by
    cases front with
    | nil => cases whole
    | cons => cases whole

theorem Ordered.claim (ordered : Ordered channel) (value : Value) :
    Ordered (channel.claim value) where
  published_claimed ticket published := by
    have bound := ordered.published_claimed ticket published
    rw [TicketChannel.claim, List.length_append]
    exact Nat.lt_add_right _ bound
  earlier_lt early late earlier := by
    rcases earlier with ⟨rfl, published⟩ | earlier
    · exact ordered.published_claimed early published
    · exact ordered.earlier_lt early late earlier
  earlier_published early late earlier := by
    rcases earlier with ⟨_, published⟩ | earlier
    · exact published
    · exact ordered.earlier_published early late earlier
  delivered_published := ordered.delivered_published
  delivered_nodup := ordered.delivered_nodup
  delivered_ordered front ticket back whole early earlier := by
    rcases earlier with ⟨newest, _⟩ | earlier
    · -- the newest ticket has not been delivered
      have member : ticket ∈ channel.delivered := by
        rw [show channel.delivered = front ++ ticket :: back from whole]
        exact List.mem_append_right _ List.mem_cons_self
      have bound := ordered.published_claimed ticket (ordered.delivered_published ticket member)
      exact absurd newest (Nat.ne_of_lt bound)
    · exact ordered.delivered_ordered front ticket back whole early earlier

theorem Ordered.publish (ordered : Ordered channel) (bound : ticket < channel.claimed.length) :
    Ordered (channel.publish ticket) where
  published_claimed other published := by
    rcases published with rfl | published
    · exact bound
    · exact ordered.published_claimed other published
  earlier_lt := ordered.earlier_lt
  earlier_published early late earlier := Or.inr (ordered.earlier_published early late earlier)
  delivered_published other member := Or.inr (ordered.delivered_published other member)
  delivered_nodup := ordered.delivered_nodup
  delivered_ordered := ordered.delivered_ordered

theorem Ordered.deliver (ordered : Ordered channel) (published : channel.published ticket)
    (fresh : ticket ∉ channel.delivered)
    (complete : ∀ early, channel.earlier early ticket → early ∈ channel.delivered) :
    Ordered (channel.deliver ticket) where
  published_claimed := ordered.published_claimed
  earlier_lt := ordered.earlier_lt
  earlier_published := ordered.earlier_published
  delivered_published other member := by
    rcases List.mem_append.mp member with member | member
    · exact ordered.delivered_published other member
    · obtain rfl := List.mem_singleton.mp member
      exact published
  delivered_nodup := by
    refine List.Nodup.append ordered.delivered_nodup (List.nodup_singleton ticket) ?_
    exact List.disjoint_singleton.mpr fresh
  delivered_ordered front other back whole early earlier := by
    change channel.delivered ++ [ticket] = front ++ other :: back at whole
    rcases List.eq_nil_or_concat back with rfl | ⟨initial, last, rfl⟩
    · obtain ⟨rfl, same⟩ := List.append_inj' whole rfl
      obtain rfl := List.singleton_inj.mp same
      exact complete early earlier
    · rw [List.concat_eq_append, ← List.cons_append, ← List.append_assoc] at whole
      obtain ⟨same, _⟩ := List.append_inj' whole rfl
      exact ordered.delivered_ordered front other initial same early earlier

/-! ### The values delivered -/

theorem values_claim (ordered : Ordered channel) (value : Value) :
    (channel.claim value).values = channel.values := by
  refine List.filterMap_congr fun ticket member => ?_
  have bound := ordered.published_claimed ticket (ordered.delivered_published ticket member)
  exact List.getElem?_append_left bound

theorem values_deliver (found : channel.claimed[ticket]? = some value) :
    (channel.deliver ticket).values = channel.values ++ [value] := by
  change (channel.delivered ++ [ticket]).filterMap (fun ticket => channel.claimed[ticket]?) =
    channel.values ++ [value]
  rw [List.filterMap_append, List.filterMap_cons, found]
  rfl

/-- Every value delivered was claimed. -/
theorem values_subset : channel.values ⊆ channel.claimed := by
  intro value member
  obtain ⟨ticket, _, found⟩ := List.mem_filterMap.mp member
  exact List.mem_of_getElem? found

theorem mem_values (delivered : ticket ∈ channel.delivered)
    (found : channel.claimed[ticket]? = some value) : value ∈ channel.values :=
  List.mem_filterMap.mpr ⟨ticket, delivered, found⟩

/-- Where no value is claimed twice, a value has one ticket. -/
theorem ticket_unique {first second : Nat} (distinct : channel.claimed.Nodup)
    (left : channel.claimed[first]? = some value)
    (right : channel.claimed[second]? = some value) : first = second := by
  obtain ⟨bound, _⟩ := List.getElem?_eq_some_iff.mp left
  exact (List.getElem?_inj bound distinct).mp (left.trans right.symm)

/-- Where no value is claimed twice, no value is delivered twice. -/
theorem Ordered.values_nodup (ordered : Ordered channel) (distinct : channel.claimed.Nodup) :
    channel.values.Nodup := by
  refine List.Nodup.filterMap ?_ ordered.delivered_nodup
  intro first second value left right
  exact ticket_unique distinct left right

/-- Where a ticket was published when another was claimed, its value is delivered
before the other's. -/
theorem Ordered.values_ordered {early late : Nat} {earlyValue lateValue : Value}
    {front back : List Value} (ordered : Ordered channel) (distinct : channel.claimed.Nodup)
    (earlier : channel.earlier early late) (earlyFound : channel.claimed[early]? = some earlyValue)
    (lateFound : channel.claimed[late]? = some lateValue)
    (whole : channel.values = front ++ lateValue :: back) : earlyValue ∈ front := by
  obtain ⟨frontTickets, others, split, frontValues, otherValues⟩ :=
    List.filterMap_eq_append_iff.mp whole
  obtain ⟨skipped, ticket, rest, rfl, skippedValues, ticketFound, _⟩ :=
    List.filterMap_eq_cons_iff.mp otherValues
  obtain rfl := ticket_unique distinct ticketFound lateFound
  rw [← List.append_assoc] at split
  have member := ordered.delivered_ordered _ ticket rest split early earlier
  rcases List.mem_append.mp member with member | member
  · rw [← frontValues]
    exact List.mem_filterMap.mpr ⟨early, member, earlyFound⟩
  · exact absurd (skippedValues early member) (by rw [earlyFound]; exact Option.some_ne_none _)

end TicketChannel
