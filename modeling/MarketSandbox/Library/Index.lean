/-
This file develops the index of a list of pairs: a partial function that is
defined exactly at the keys of the list and gives each key its one value. An
index follows the list when a pair with a new key is added and when pairs are
removed.
-/

import Mathlib.Data.List.Basic
import Mathlib.Data.List.Nodup
import Mathlib.Data.List.Perm.Basic

/-- In a list whose items have distinct tags, filtering out one item's tag removes exactly that
item. -/
theorem List.perm_cons_filter_tag {Item Tag : Type} [DecidableEq Tag] {tag : Item → Tag}
    {items : List Item} (distinct : (items.map tag).Nodup) {item : Item} (member : item ∈ items) :
    items.Perm (item :: items.filter fun other => tag other ≠ tag item) := by
  induction items with
  | nil => cases member
  | cons head rest inductionHypothesis =>
    rw [List.map_cons, List.nodup_cons] at distinct
    obtain ⟨headFresh, restDistinct⟩ := distinct
    rcases List.mem_cons.mp member with rfl | inRest
    · have keeps : rest.filter (fun other => tag other ≠ tag item) = rest := by
        rw [List.filter_eq_self]
        intro other inRest
        have different : tag other ≠ tag item := fun same =>
          headFresh (same ▸ List.mem_map_of_mem inRest)
        simpa using different
      rw [List.filter_cons_of_neg (by simp), keeps]
    · have different : tag head ≠ tag item := fun same =>
        headFresh (same ▸ List.mem_map_of_mem inRest)
      rw [List.filter_cons_of_pos (by simpa using different)]
      exact ((inductionHypothesis restDistinct inRest).cons head).trans (.swap _ _ _)

/-- In a list whose items have distinct tags, only an item has its tag. -/
theorem List.filter_tag_eq {Item Tag : Type} [DecidableEq Tag] {tag : Item → Tag}
    {items : List Item} (distinct : (items.map tag).Nodup) {item : Item} (member : item ∈ items) :
    (items.filter fun other => tag other = tag item) = [item] := by
  have one := (perm_cons_filter_tag distinct member).filter fun other => tag other = tag item
  have others : (items.filter fun other => tag other ≠ tag item).filter
      (fun other => tag other = tag item) = [] := by
    rw [filter_filter]
    simp
  rw [filter_cons_of_pos (by simp), others] at one
  exact perm_singleton.mp one

/-- The keys are distinct and the function looks them up. -/
structure Indexes {Key Value : Type} (index : Key → Option Value) (pairs : List (Key × Value)) :
    Prop where
  distinct : (pairs.map Prod.fst).Nodup
  lookup : ∀ key value, index key = some value ↔ (key, value) ∈ pairs

namespace Indexes

variable {Key Value : Type} {index : Key → Option Value} {pairs : List (Key × Value)}

theorem nil : Indexes (fun _ : Key => (none : Option Value)) [] :=
  ⟨List.nodup_nil, fun _ _ => by simp⟩

theorem perm {others : List (Key × Value)} (indexes : Indexes index pairs)
    (same : pairs.Perm others) : Indexes index others where
  distinct := (same.map Prod.fst).nodup_iff.mp indexes.distinct
  lookup key value := (indexes.lookup key value).trans same.mem_iff

/-- The index is undefined exactly at the keys that are not in the list. -/
theorem lookup_none (indexes : Indexes index pairs) (key : Key) :
    index key = none ↔ key ∉ pairs.map Prod.fst := by
  rw [Option.eq_none_iff_forall_ne_some]
  constructor
  · intro undefined member
    obtain ⟨⟨other, value⟩, inPairs, rfl⟩ := List.mem_map.mp member
    exact undefined value ((indexes.lookup other value).mpr inPairs)
  · intro absent value found
    exact absent (List.mem_map_of_mem (f := Prod.fst) ((indexes.lookup key value).mp found))

/-- Adding a pair with a new key. -/
theorem add [DecidableEq Key] (indexes : Indexes index pairs) (key : Key) (value : Value)
    (fresh : key ∉ pairs.map Prod.fst) :
    Indexes (Function.update index key (some value)) ((key, value) :: pairs) where
  distinct := List.nodup_cons.mpr ⟨fresh, indexes.distinct⟩
  lookup other otherValue := by
    rw [List.mem_cons, Prod.mk.injEq, Function.update_apply]
    by_cases same : other = key
    · subst same
      have absent : (other, otherValue) ∉ pairs := fun member =>
        fresh (List.mem_map_of_mem (f := Prod.fst) member)
      simp [absent, eq_comm]
    · simp [same, indexes.lookup]

/-- Removing the pairs at the front. -/
theorem drop [DecidableEq Key] {gone kept : List (Key × Value)}
    (indexes : Indexes index (gone ++ kept)) :
    Indexes (fun key => if key ∈ gone.map Prod.fst then none else index key) kept where
  distinct := by
    have distinct := indexes.distinct
    rw [List.map_append] at distinct
    exact distinct.of_append_right
  lookup key value := by
    have distinct := indexes.distinct
    rw [List.map_append] at distinct
    have apart := List.disjoint_of_nodup_append distinct
    by_cases isGone : key ∈ gone.map Prod.fst
    · have notKept : (key, value) ∉ kept := fun member =>
        apart isGone (List.mem_map_of_mem (f := Prod.fst) member)
      simp [isGone, notKept]
    · have notGone : (key, value) ∉ gone := fun member =>
        isGone (List.mem_map_of_mem (f := Prod.fst) member)
      simp [isGone, indexes.lookup, notGone]

/-- Removing one pair. -/
theorem remove [DecidableEq Key] {key : Key} {value : Value} {kept : List (Key × Value)}
    (indexes : Indexes index ((key, value) :: kept)) :
    Indexes (Function.update index key none) kept := by
  have dropped : Indexes (fun other => if other ∈ [(key, value)].map Prod.fst then none
      else index other) kept := indexes.drop
  have same : (fun other => if other ∈ [(key, value)].map Prod.fst then none else index other) =
      Function.update index key none := by
    funext other
    simp [Function.update_apply]
  rwa [same] at dropped

end Indexes
