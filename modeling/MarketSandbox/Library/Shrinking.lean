/-
This file develops lists whose items leave or change in place and are never
reordered: one list is related, item by item, to a sublist of another. Where
items have distinct keys that a change keeps, an item that stays splits both
lists at its place, and what stood before it before is all that stands before it
now.
-/

import Mathlib.Data.List.Forall2
import Mathlib.Data.List.Nodup

namespace Shrinking

open List

variable {Item Key : Type} {Related : Item → Item → Prop} {key : Item → Key}

/-- What is left of a list has keys of the list. -/
theorem keys_subset (same : ∀ now before, Related now before → key now = key before)
    {now before : List Item} (shrunk : SublistForall₂ Related now before) :
    now.map key ⊆ before.map key := by
  induction shrunk with
  | nil => exact List.nil_subset _
  | cons related _ inductionHypothesis =>
    rw [List.map_cons, List.map_cons, same _ _ related]
    exact List.cons_subset_cons _ inductionHypothesis
  | cons_right _ inductionHypothesis =>
    rw [List.map_cons]
    exact List.subset_cons_of_subset _ inductionHypothesis

/-- An item that stays splits what is left at its place. -/
theorem split (same : ∀ now before, Related now before → key now = key before)
    {now before ahead behind : List Item} {item : Item}
    (shrunk : SublistForall₂ Related now before) (whole : before = ahead ++ item :: behind)
    (distinct : (before.map key).Nodup) (stays : key item ∈ now.map key) :
    ∃ aheadNow itemNow behindNow, now = aheadNow ++ itemNow :: behindNow ∧
      SublistForall₂ Related aheadNow ahead ∧ Related itemNow item ∧
      SublistForall₂ Related behindNow behind := by
  induction shrunk generalizing ahead with
  | nil => cases stays
  | @cons head other rest others related shrunk inductionHypothesis =>
    rw [List.map_cons, List.nodup_cons] at distinct
    cases ahead with
    | nil =>
      obtain ⟨rfl, rfl⟩ := List.cons.inj whole
      exact ⟨[], head, rest, rfl, .nil, related, shrunk⟩
    | cons first ahead =>
      obtain ⟨rfl, rfl⟩ := List.cons.inj whole
      have different : key item ≠ key head := by
        rw [same _ _ related]
        intro equal
        refine distinct.1 (equal ▸ List.mem_map_of_mem ?_)
        exact List.mem_append_right _ List.mem_cons_self
      have staysLater := (List.mem_cons.mp stays).resolve_left different
      obtain ⟨aheadNow, itemNow, behindNow, rfl, before, kept, after⟩ :=
        inductionHypothesis rfl distinct.2 staysLater
      exact ⟨head :: aheadNow, itemNow, behindNow, rfl, .cons related before, kept, after⟩
  | @cons_right other rest others shrunk inductionHypothesis =>
    rw [List.map_cons, List.nodup_cons] at distinct
    cases ahead with
    | nil =>
      obtain ⟨rfl, rfl⟩ := List.cons.inj whole
      exact absurd (keys_subset same shrunk stays) distinct.1
    | cons first ahead =>
      obtain ⟨rfl, rfl⟩ := List.cons.inj whole
      obtain ⟨aheadNow, itemNow, behindNow, rfl, before, kept, after⟩ :=
        inductionHypothesis rfl distinct.2 stays
      exact ⟨aheadNow, itemNow, behindNow, rfl, .cons_right before, kept, after⟩

/-- The part of a list that a kept property selects shrinks with it. -/
theorem filter (picks : Item → Bool) (kept : ∀ now before, Related now before →
    picks now = picks before) {now before : List Item}
    (shrunk : SublistForall₂ Related now before) :
    SublistForall₂ Related (now.filter picks) (before.filter picks) := by
  induction shrunk with
  | nil => exact .nil
  | @cons head other rest others related _ inductionHypothesis =>
    rw [List.filter_cons, List.filter_cons, kept _ _ related]
    split_ifs
    · exact .cons related inductionHypothesis
    · exact inductionHypothesis
  | @cons_right other rest others _ inductionHypothesis =>
    rw [List.filter_cons]
    split_ifs
    · exact .cons_right inductionHypothesis
    · exact inductionHypothesis

end Shrinking
