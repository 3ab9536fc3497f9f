/-
This file develops the map that remembers the order in which its keys were
first set, as a JavaScript `Map` does. Setting a key that is present replaces
its value in place; deleting a key forgets its place. Every operation is
described by what it does to lookup.
-/

import MarketSandbox.Library.Index
import Mathlib.Algebra.BigOperators.Group.List.Basic
import Mathlib.Data.List.Dedup
import Mathlib.Tactic.SplitIfs

/-- A map as the list of its entries in insertion order. -/
structure InsertionMap (Key Value : Type) where
  entries : List (Key × Value)
  nodup : (entries.map Prod.fst).Nodup

namespace InsertionMap

variable {Key Value : Type}

/-- The map without entries. -/
def empty : InsertionMap Key Value := ⟨[], .nil⟩

/-- The number of entries. -/
def size (map : InsertionMap Key Value) : Nat := map.entries.length

/-- The key that was inserted first, `keys().next().value`. -/
def firstKey (map : InsertionMap Key Value) : Option Key := map.entries.head?.map Prod.fst

variable [DecidableEq Key]

/-- The value at a key. -/
def get (map : InsertionMap Key Value) (key : Key) : Option Value :=
  (map.entries.find? fun entry => entry.1 = key).map Prod.snd

/-- Set the value at a key: in place when the key is present, else at the end. -/
def set (map : InsertionMap Key Value) (key : Key) (value : Value) : InsertionMap Key Value :=
  if present : key ∈ map.entries.map Prod.fst then
    ⟨map.entries.map fun entry => if entry.1 = key then (key, value) else entry, by
      have unchanged : (Prod.fst ∘ fun entry : Key × Value =>
          if entry.1 = key then (key, value) else entry) = Prod.fst := by
        funext entry
        by_cases same : entry.1 = key <;> simp [same]
      rw [List.map_map, unchanged]
      exact map.nodup⟩
  else
    ⟨map.entries ++ [(key, value)], by
      rw [List.map_append]
      refine List.nodup_append'.mpr ⟨map.nodup, List.nodup_singleton _, ?_⟩
      simpa using present⟩

/-- Delete the entry at a key. -/
def delete (map : InsertionMap Key Value) (key : Key) : InsertionMap Key Value :=
  ⟨map.entries.filter fun entry => entry.1 ≠ key,
    map.nodup.sublist (List.filter_sublist.map _)⟩

/-! ### Lookup -/

/-- Lookup is the index of the entries. -/
theorem indexes_get (map : InsertionMap Key Value) : Indexes map.get map.entries where
  distinct := map.nodup
  lookup key value := by
    unfold get
    constructor
    · intro found
      obtain ⟨entry, isEntry, rfl⟩ := Option.map_eq_some_iff.mp found
      have keyEq : entry.1 = key := by simpa using List.find?_some isEntry
      rw [← keyEq]
      exact List.mem_of_find?_eq_some isEntry
    · intro member
      cases isEntry : map.entries.find? fun entry => entry.1 = key with
      | none =>
        have absent := List.find?_eq_none.mp isEntry _ member
        simp at absent
      | some entry =>
        have keyEq : entry.1 = key := by simpa using List.find?_some isEntry
        have same : entry = (key, value) := List.inj_on_of_nodup_map map.nodup
          (List.mem_of_find?_eq_some isEntry) member keyEq
        rw [same, Option.map_some]

/-- The keys are those with a value. -/
theorem mem_keys_iff (map : InsertionMap Key Value) (key : Key) :
    key ∈ map.entries.map Prod.fst ↔ ∃ value, map.get key = some value := by
  simp only [List.mem_map, map.indexes_get.lookup]
  constructor
  · rintro ⟨entry, member, rfl⟩
    exact ⟨entry.2, member⟩
  · rintro ⟨value, member⟩
    exact ⟨(key, value), member, rfl⟩

@[simp] theorem get_empty (key : Key) : (empty : InsertionMap Key Value).get key = none := rfl

theorem get_set (map : InsertionMap Key Value) (key : Key) (value : Value) :
    (map.set key value).get = Function.update map.get key (some value) := by
  funext other
  refine Option.ext fun found => ?_
  rw [(map.set key value).indexes_get.lookup, Function.update_apply]
  unfold set
  split_ifs with present same same
  · subst same
    simp only [List.mem_map, Option.some_inj]
    constructor
    · rintro ⟨entry, member, isEntry⟩
      by_cases own : entry.1 = other
      · rw [if_pos own] at isEntry
        exact congrArg Prod.snd isEntry
      · rw [if_neg own] at isEntry
        exact absurd (congrArg Prod.fst isEntry) own
    · rintro rfl
      obtain ⟨entry, member, own⟩ := List.mem_map.mp present
      exact ⟨entry, member, if_pos own⟩
  · rw [map.indexes_get.lookup]
    simp only [List.mem_map]
    constructor
    · rintro ⟨entry, member, isEntry⟩
      by_cases own : entry.1 = key
      · rw [if_pos own] at isEntry
        exact absurd (congrArg Prod.fst isEntry).symm same
      · rw [if_neg own] at isEntry
        rwa [← isEntry]
    · exact fun member => ⟨(other, found), member, if_neg same⟩
  · subst same
    have absent : (other, found) ∉ map.entries := fun member =>
      present (List.mem_map_of_mem (f := Prod.fst) member)
    simp [absent, eq_comm]
  · rw [map.indexes_get.lookup]
    simp [same]

theorem get_delete (map : InsertionMap Key Value) (key : Key) :
    (map.delete key).get = Function.update map.get key none := by
  funext other
  refine Option.ext fun found => ?_
  rw [(map.delete key).indexes_get.lookup, Function.update_apply]
  unfold delete
  split_ifs with same
  · simp [same]
  · rw [map.indexes_get.lookup]
    simp [same]

/-! ### Accounts -/

/-- Modify the value at a key, which starts from a fresh value. -/
def modify (map : InsertionMap Key Value) (key : Key) (fresh : Value) (change : Value → Value) :
    InsertionMap Key Value :=
  map.set key (change ((map.get key).getD fresh))

/-- The map with every value changed in place. -/
def mapValues {Other : Type} (map : InsertionMap Key Value) (change : Value → Other) :
    InsertionMap Key Other :=
  ⟨map.entries.map fun entry => (entry.1, change entry.2), by
    rw [List.map_map]
    exact map.nodup⟩

variable {Amount : Type}

/-- A measure of the value at a key, zero where there is none. -/
def read [Zero Amount] (map : InsertionMap Key Value) (measure : Value → Amount) (key : Key) :
    Amount :=
  ((map.get key).map measure).getD 0

/-- The sum of a measure over the values. -/
def total [AddCommMonoid Amount] (map : InsertionMap Key Value) (measure : Value → Amount) :
    Amount :=
  (map.entries.map fun entry => measure entry.2).sum

theorem get_modify (map : InsertionMap Key Value) (key : Key) (fresh : Value)
    (change : Value → Value) :
    (map.modify key fresh change).get =
      Function.update map.get key (some (change ((map.get key).getD fresh))) :=
  map.get_set _ _

theorem get_mapValues {Other : Type} (map : InsertionMap Key Value) (change : Value → Other)
    (key : Key) : (map.mapValues change).get key = (map.get key).map change := by
  rw [get, mapValues, List.find?_map, get, Option.map_map, Option.map_map]
  rfl

section Measure

variable [AddCommMonoid Amount] {measure : Value → Amount} {fresh : Value}
  {change : Value → Value} {amount : Amount}

theorem getD_map_fresh (zero : measure fresh = 0) (value : Option Value) :
    measure (value.getD fresh) = (value.map measure).getD 0 := by
  cases value with
  | none => exact zero
  | some value => rfl

/-- A change adds its amount at its key. -/
theorem read_modify (zero : measure fresh = 0)
    (adds : ∀ value, measure (change value) = measure value + amount)
    (map : InsertionMap Key Value) (key other : Key) :
    (map.modify key fresh change).read measure other =
      map.read measure other + if key = other then amount else 0 := by
  rw [read, get_modify, Function.update_apply, read]
  by_cases same : other = key
  · rw [if_pos same, if_pos same.symm, same, Option.map_some, Option.getD_some, adds,
      getD_map_fresh zero]
  · rw [if_neg same, if_neg fun eq => same eq.symm, add_zero]

theorem sum_set_present {entries : List (Key × Value)} (nodup : (entries.map Prod.fst).Nodup)
    {key : Key} {value next : Value} (member : (key, value) ∈ entries)
    (adds : measure next = measure value + amount) :
    ((entries.map fun entry => if entry.1 = key then (key, next) else entry).map
        fun entry => measure entry.2).sum =
      (entries.map fun entry => measure entry.2).sum + amount := by
  induction entries with
  | nil => cases member
  | cons head rest inductionHypothesis =>
    rw [List.map_cons, List.nodup_cons] at nodup
    rw [List.map_cons, List.map_cons, List.map_cons, List.sum_cons, List.sum_cons]
    by_cases same : head.1 = key
    · have isHead : head = (key, value) := by
        rcases List.mem_cons.mp member with isHead | inRest
        · exact isHead.symm
        · exact absurd (same ▸ List.mem_map_of_mem (f := Prod.fst) inRest) nodup.1
      have others : (rest.map fun entry => if entry.1 = key then (key, next) else entry) =
          rest := by
        refine (List.map_congr_left fun entry inRest => if_neg fun isKey => ?_).trans
          (List.map_id' rest)
        have keyInRest := List.mem_map_of_mem (f := Prod.fst) inRest
        exact nodup.1 (by rwa [same, ← isKey])
      rw [if_pos same, others, isHead, adds, add_right_comm]
    · have inRest : (key, value) ∈ rest := (List.mem_cons.mp member).resolve_left fun isHead =>
        same (congrArg Prod.fst isHead).symm
      rw [if_neg same, inductionHypothesis nodup.2 inRest, add_assoc]

/-- A change adds its amount to the total. -/
theorem total_modify (zero : measure fresh = 0)
    (adds : ∀ value, measure (change value) = measure value + amount)
    (map : InsertionMap Key Value) (key : Key) :
    (map.modify key fresh change).total measure = map.total measure + amount := by
  cases found : map.get key with
  | none =>
    have absent : key ∉ map.entries.map Prod.fst := by
      rw [mem_keys_iff, found]
      rintro ⟨value, isValue⟩
      cases isValue
    rw [modify, found, set, dif_neg absent, total, List.map_append, List.sum_append, total]
    simp [adds, zero]
  | some value =>
    have member : (key, value) ∈ map.entries := (map.indexes_get.lookup key value).mp found
    rw [modify, found, set, dif_pos (List.mem_map_of_mem (f := Prod.fst) member), total]
    exact sum_set_present map.nodup member (adds value)

end Measure

end InsertionMap
