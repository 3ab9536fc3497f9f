/-
This file develops the ordered map: a list of entries whose keys are strictly
sorted by a comparison, so that a map with a repeated or misplaced key cannot
be built. It gives lookup, insertion at a key's place, replacement and removal,
and describes each by membership of entries. The last section is about maps
whose values are lists: what the operations do to the concatenation of all
values, from the first key to the last.
-/

import Mathlib.Data.List.Basic
import Mathlib.Data.List.Nodup
import Mathlib.Data.List.Pairwise
import Mathlib.Data.List.Perm.Basic
import Mathlib.Data.List.Sort
import Mathlib.Order.Defs.Unbundled
import Mathlib.Order.RelIso.Basic
import Mathlib.Tactic.SplitIfs

/-- A map whose entries are strictly sorted by key. -/
@[ext]
structure SortedMap (Key Value : Type) (before : Key → Key → Prop) where
  entries : List (Key × Value)
  sorted : (entries.map Prod.fst).Pairwise before

namespace SortedMap

variable {Key Value : Type} {before : Key → Key → Prop}

/-- The map without entries. -/
def empty : SortedMap Key Value before := ⟨[], .nil⟩

/-- Keep some of the entries, or change their values, without changing their order. -/
def ofSublist (map : SortedMap Key Value before) (entries : List (Key × Value))
    (sublist : (entries.map Prod.fst).Sublist (map.entries.map Prod.fst)) :
    SortedMap Key Value before :=
  ⟨entries, map.sorted.sublist sublist⟩

/-! ### Keys are unique -/

theorem nodup_keys [Std.Irrefl before] (map : SortedMap Key Value before) :
    (map.entries.map Prod.fst).Nodup :=
  map.sorted.imp fun {first second} less same => by
    rw [same] at less
    exact Std.Irrefl.irrefl second less

/-! ### The place of a key -/

/-- The comparison decides between a key and the key of every entry. A comparison that is not
total, such as that of floating-point numbers, may leave a key without a place. -/
def Places (before : Key → Key → Prop) (entries : List (Key × Value)) (key : Key) : Prop :=
  ∀ entry ∈ entries, before entry.1 key ∨ entry.1 = key ∨ before key entry.1

theorem Places.of_total [IsStrictTotalOrder Key before] (entries : List (Key × Value))
    (key : Key) : Places before entries key :=
  fun entry _ => trichotomous_of before entry.1 key

theorem Places.tail {entry : Key × Value} {rest : List (Key × Value)} {key : Key}
    (places : Places before (entry :: rest) key) : Places before rest key :=
  fun other member => places other (List.mem_cons_of_mem _ member)

/-- A key of a sorted map has a place in it. -/
theorem places_of_mem (map : SortedMap Key Value before) {entry : Key × Value}
    (member : entry ∈ map.entries) : Places before map.entries entry.1 := by
  intro other inMap
  obtain ⟨front, back, split⟩ := List.append_of_mem member
  have sorted := List.pairwise_map.mp map.sorted
  rw [split, List.pairwise_append, List.pairwise_cons] at sorted
  rw [split] at inMap
  rcases List.mem_append.mp inMap with inFront | inBack
  · exact .inl (sorted.2.2 other inFront entry List.mem_cons_self)
  · rcases List.mem_cons.mp inBack with rfl | later
    · exact .inr (.inl rfl)
    · exact .inr (.inr (sorted.2.1.1 other later))

/-- Where a key with a place stands: after the first entry, at it, or in front of all entries. -/
theorem Places.head [IsStrictOrder Key before] {entry : Key × Value} {rest : List (Key × Value)}
    {key : Key} (places : Places before (entry :: rest) key)
    (sorted : ((entry :: rest).map Prod.fst).Pairwise before) :
    (before entry.1 key ∧ entry.1 ≠ key) ∨
      (¬ before entry.1 key ∧ ¬ before key entry.1 ∧ entry.1 = key ∧
        ∀ other ∈ rest, other.1 ≠ key) ∨
      (¬ before entry.1 key ∧ before key entry.1 ∧ ∀ other ∈ entry :: rest, other.1 ≠ key) := by
  have above : ∀ other ∈ rest, before entry.1 other.1 := fun other member =>
    (List.pairwise_cons.mp sorted).1 other.1 (List.mem_map_of_mem member)
  rcases places entry List.mem_cons_self with less | rfl | greater
  · exact .inl ⟨less, fun same => Std.Irrefl.irrefl key (same ▸ less)⟩
  · exact .inr (.inl ⟨Std.Irrefl.irrefl _, Std.Irrefl.irrefl _, rfl, fun other member same =>
      Std.Irrefl.irrefl entry.1 (same ▸ above other member)⟩)
  · refine .inr (.inr ⟨fun less => Std.Irrefl.irrefl key (Trans.trans greater less), greater, ?_⟩)
    intro other member same
    rcases List.mem_cons.mp member with rfl | inRest
    · exact Std.Irrefl.irrefl key (same ▸ greater)
    · exact Std.Irrefl.irrefl key (Trans.trans greater (same ▸ above other inRest))

/-! ### Lookup -/

section Lookup

variable [DecidableRel before]

/-- The first entry whose key is not before a key, unless the key is before that entry's. -/
def findEntry (before : Key → Key → Prop) [DecidableRel before] (key : Key) :
    List (Key × Value) → Option (Key × Value)
  | [] => none
  | entry :: rest =>
    if before entry.1 key then findEntry before key rest
    else if before key entry.1 then none
    else some entry

/-- The value at a key. -/
def find (map : SortedMap Key Value before) (key : Key) : Option Value :=
  (findEntry before key map.entries).map Prod.snd

theorem mem_of_findEntry {key : Key} {entries : List (Key × Value)} {entry : Key × Value}
    (found : findEntry before key entries = some entry) : entry ∈ entries := by
  induction entries with
  | nil => cases found
  | cons head rest inductionHypothesis =>
    rw [findEntry] at found
    split_ifs at found
    · exact List.mem_cons_of_mem _ (inductionHypothesis found)
    · obtain rfl := Option.some.inj found
      exact List.mem_cons_self

/-- A value that is found is that of an entry, whether or not the key has a place. -/
theorem mem_of_find {map : SortedMap Key Value before} {key : Key} {value : Value}
    (found : map.find key = some value) : ∃ entry ∈ map.entries, entry.2 = value := by
  obtain ⟨entry, isEntry, same⟩ := Option.map_eq_some_iff.mp found
  exact ⟨entry, mem_of_findEntry isEntry, same⟩

theorem findEntry_eq_some_iff [IsStrictOrder Key before] {key : Key}
    {entries : List (Key × Value)} (sorted : (entries.map Prod.fst).Pairwise before)
    (places : Places before entries key) (entry : Key × Value) :
    findEntry before key entries = some entry ↔ entry ∈ entries ∧ entry.1 = key := by
  induction entries with
  | nil => simp [findEntry]
  | cons head rest inductionHypothesis =>
    rw [findEntry, List.mem_cons]
    rcases places.head sorted with ⟨less, different⟩ | ⟨notLess, notGreater, same, others⟩ |
      ⟨notLess, greater, others⟩
    · rw [if_pos less, inductionHypothesis (List.pairwise_cons.mp sorted).2 places.tail]
      refine and_congr_left fun isKey => (or_iff_right ?_).symm
      rintro rfl
      exact different isKey
    · rw [if_neg notLess, if_neg notGreater, Option.some_inj]
      constructor
      · rintro rfl
        exact ⟨.inl rfl, same⟩
      · rintro ⟨rfl | inRest, isKey⟩
        · rfl
        · exact absurd isKey (others entry inRest)
    · rw [if_neg notLess, if_pos greater]
      refine iff_of_false (by simp) ?_
      rintro ⟨member, isKey⟩
      exact others entry (List.mem_cons.mpr member) isKey

theorem find_eq_some_iff [IsStrictOrder Key before] (map : SortedMap Key Value before)
    {key : Key} (places : Places before map.entries key) (value : Value) :
    map.find key = some value ↔ (key, value) ∈ map.entries := by
  rw [find, Option.map_eq_some_iff]
  simp only [findEntry_eq_some_iff map.sorted places]
  constructor
  · rintro ⟨entry, ⟨member, rfl⟩, rfl⟩
    exact member
  · exact fun member => ⟨(key, value), ⟨member, rfl⟩, rfl⟩

end Lookup

/-! ### Replacement and removal -/

section Replace

variable [DecidableRel before]

/-- Change the value of the entry that is found at a key, or remove the entry. -/
def alterEntries (before : Key → Key → Prop) [DecidableRel before] (key : Key)
    (change : Value → Option Value) : List (Key × Value) → List (Key × Value)
  | [] => []
  | (entryKey, value) :: rest =>
    if before entryKey key then (entryKey, value) :: alterEntries before key change rest
    else if before key entryKey then (entryKey, value) :: rest
    else match change value with
      | some changed => (entryKey, changed) :: rest
      | none => rest

theorem alterEntries_keys (key : Key) (change : Value → Option Value)
    (entries : List (Key × Value)) :
    ((alterEntries before key change entries).map Prod.fst).Sublist (entries.map Prod.fst) := by
  induction entries with
  | nil => exact .slnil
  | cons entry rest inductionHypothesis =>
    obtain ⟨entryKey, value⟩ := entry
    rw [alterEntries]
    split_ifs
    · exact inductionHypothesis.cons_cons _
    · exact .refl _
    · cases change value with
      | some changed => exact .refl _
      | none => exact List.sublist_cons_self _ _

/-- Replace the value at a key that is present. -/
def set (map : SortedMap Key Value before) (key : Key) (value : Value) :
    SortedMap Key Value before :=
  map.ofSublist (alterEntries before key (fun _ => some value) map.entries)
    (alterEntries_keys _ _ _)

/-- Remove the entry at a key. -/
def erase (map : SortedMap Key Value before) (key : Key) : SortedMap Key Value before :=
  map.ofSublist (alterEntries before key (fun _ => none) map.entries) (alterEntries_keys _ _ _)

/-- What an altered list holds was there, or is the entry that was found, changed. -/
theorem mem_of_alterEntries {key : Key} {change : Value → Option Value}
    {entries : List (Key × Value)} {entry : Key × Value}
    (member : entry ∈ alterEntries before key change entries) :
    entry ∈ entries ∨ ∃ old, findEntry before key entries = some (entry.1, old) ∧
      change old = some entry.2 := by
  induction entries with
  | nil => cases member
  | cons head rest inductionHypothesis =>
    obtain ⟨headKey, value⟩ := head
    rw [alterEntries] at member
    rw [findEntry]
    split_ifs at member ⊢
    · rcases List.mem_cons.mp member with rfl | inRest
      · exact .inl List.mem_cons_self
      · exact (inductionHypothesis inRest).imp_left (List.mem_cons_of_mem _)
    · exact .inl member
    · cases changed : change value with
      | none =>
        rw [changed] at member
        exact .inl (List.mem_cons_of_mem _ member)
      | some other =>
        rw [changed] at member
        rcases List.mem_cons.mp member with rfl | inRest
        · exact .inr ⟨value, rfl, changed⟩
        · exact .inl (List.mem_cons_of_mem _ inRest)

/-- Where a key has a place, the entry with that key is the one that is altered. -/
theorem mem_alterEntries [IsStrictOrder Key before] {key : Key} {change : Value → Option Value}
    {entries : List (Key × Value)} (sorted : (entries.map Prod.fst).Pairwise before)
    (places : Places before entries key) (entry : Key × Value) :
    entry ∈ alterEntries before key change entries ↔
      (entry ∈ entries ∧ entry.1 ≠ key) ∨
        entry.1 = key ∧ ∃ old, (key, old) ∈ entries ∧ change old = some entry.2 := by
  induction entries with
  | nil => simp [alterEntries]
  | cons head rest inductionHypothesis =>
    obtain ⟨headKey, value⟩ := head
    rw [alterEntries]
    rcases places.head sorted with ⟨less, different⟩ | ⟨notLess, notGreater, rfl, others⟩ |
      ⟨notLess, greater, others⟩
    · have own : ∀ old, (key, old) ∈ (headKey, value) :: rest ↔ (key, old) ∈ rest := fun old =>
        ⟨fun member => (List.mem_cons.mp member).resolve_left fun same =>
          different (congrArg Prod.fst same).symm, List.mem_cons_of_mem _⟩
      simp only [if_pos less, List.mem_cons, own] at own ⊢
      rw [inductionHypothesis (List.pairwise_cons.mp sorted).2 places.tail, or_and_right, or_assoc]
      refine or_congr_left (iff_self_and.mpr ?_)
      rintro rfl
      exact different
    · have only : ∀ old, (headKey, old) ∈ (headKey, value) :: rest ↔ old = value := by
        intro old
        have absent : (headKey, old) ∉ rest := fun inRest => others _ inRest rfl
        rw [List.mem_cons, or_iff_left absent, Prod.mk.injEq]
        exact and_iff_right rfl
      have kept : entry ∈ (headKey, value) :: rest ∧ entry.1 ≠ headKey ↔ entry ∈ rest := by
        rw [List.mem_cons]
        constructor
        · rintro ⟨rfl | inRest, different⟩
          · exact absurd rfl different
          · exact inRest
        · exact fun inRest => ⟨.inr inRest, others entry inRest⟩
      simp only [if_neg notLess, only, exists_eq_left, kept]
      cases changed : change value with
      | none => simp
      | some other =>
        rw [List.mem_cons, or_comm, Option.some_inj, Prod.ext_iff, eq_comm (a := other)]
    · rw [if_neg notLess, if_pos greater]
      refine ⟨fun member => .inl ⟨member, others entry member⟩, ?_⟩
      rintro (⟨member, _⟩ | ⟨_, old, member, _⟩)
      · exact member
      · exact absurd rfl (others _ member)

theorem mem_of_mem_erase {map : SortedMap Key Value before} {key : Key} {entry : Key × Value}
    (member : entry ∈ (map.erase key).entries) : entry ∈ map.entries := by
  rcases mem_of_alterEntries member with old | ⟨_, _, changed⟩
  · exact old
  · cases changed

theorem mem_of_mem_set {map : SortedMap Key Value before} {key : Key} {value : Value}
    {entry : Key × Value} (member : entry ∈ (map.set key value).entries) :
    entry ∈ map.entries ∨ entry.2 = value := by
  rcases mem_of_alterEntries member with old | ⟨_, _, changed⟩
  · exact .inl old
  · exact .inr (Option.some.inj changed).symm

theorem mem_erase [IsStrictOrder Key before] (map : SortedMap Key Value before) {key : Key}
    (places : Places before map.entries key) (entry : Key × Value) :
    entry ∈ (map.erase key).entries ↔ entry ∈ map.entries ∧ entry.1 ≠ key := by
  rw [erase, ofSublist, mem_alterEntries map.sorted places]
  simp

theorem mem_set [IsStrictOrder Key before] (map : SortedMap Key Value before) {key : Key}
    (places : Places before map.entries key) (value : Value) (entry : Key × Value) :
    entry ∈ (map.set key value).entries ↔
      (entry = (key, value) ∧ ∃ old, (key, old) ∈ map.entries) ∨
        (entry ∈ map.entries ∧ entry.1 ≠ key) := by
  rw [set, ofSublist, mem_alterEntries map.sorted places, or_comm]
  simp only [Option.some_inj, exists_and_right, Prod.ext_iff, eq_comm (a := value)]
  exact or_congr_left (and_left_comm.trans and_comm)

end Replace

/-! ### Insertion at a key's place -/

section Insert

variable [DecidableRel before]

/-- Change the value at a key, which starts from an initial value when the key is absent. -/
def upsertEntries (before : Key → Key → Prop) [DecidableRel before] (key : Key) (initial : Value)
    (change : Value → Value) : List (Key × Value) → List (Key × Value)
  | [] => [(key, change initial)]
  | (other, value) :: rest =>
    if before key other then (key, change initial) :: (other, value) :: rest
    else if before other key then (other, value) :: upsertEntries before key initial change rest
    else (other, change value) :: rest

theorem key_mem_upsertEntries (key : Key) (initial : Value) (change : Value → Value)
    (entries : List (Key × Value)) (other : Key)
    (member : other ∈ (upsertEntries before key initial change entries).map Prod.fst) :
    other = key ∨ other ∈ entries.map Prod.fst := by
  induction entries with
  | nil => simpa [upsertEntries] using member
  | cons entry rest inductionHypothesis =>
    obtain ⟨entryKey, value⟩ := entry
    unfold upsertEntries at member
    split_ifs at member
    · simpa using member
    · rcases List.mem_cons.mp member with rfl | inRest
      · simp
      · exact (inductionHypothesis inRest).imp_right fun found => by simp [found]
    · exact .inr (by simpa using member)

theorem upsertEntries_sorted [IsTrans Key before] (key : Key) (initial : Value)
    (change : Value → Value) (entries : List (Key × Value))
    (sorted : (entries.map Prod.fst).Pairwise before) :
    ((upsertEntries before key initial change entries).map Prod.fst).Pairwise before := by
  induction entries with
  | nil => simp [upsertEntries]
  | cons entry rest inductionHypothesis =>
    obtain ⟨entryKey, value⟩ := entry
    rw [List.map_cons, List.pairwise_cons] at sorted
    obtain ⟨headSorted, restSorted⟩ := sorted
    unfold upsertEntries
    split_ifs with less greater
    · refine List.pairwise_cons.mpr ⟨?_, List.pairwise_cons.mpr ⟨headSorted, restSorted⟩⟩
      intro other member
      rcases List.mem_cons.mp member with rfl | inRest
      · exact less
      · exact Trans.trans less (headSorted other inRest)
    · refine List.pairwise_cons.mpr ⟨?_, inductionHypothesis restSorted⟩
      intro other member
      rcases key_mem_upsertEntries key initial change rest other member with rfl | inRest
      · exact greater
      · exact headSorted other inRest
    · exact List.pairwise_cons.mpr ⟨headSorted, restSorted⟩

/-- Change the value at a key, which starts from an initial value when the key is absent. -/
def upsert [IsTrans Key before] (map : SortedMap Key Value before) (key : Key)
    (initial : Value) (change : Value → Value) : SortedMap Key Value before :=
  ⟨upsertEntries before key initial change map.entries,
    upsertEntries_sorted key initial change map.entries map.sorted⟩

theorem mem_upsertEntries [IsStrictOrder Key before] {key : Key} (initial : Value)
    (change : Value → Value) {entries : List (Key × Value)}
    (sorted : (entries.map Prod.fst).Pairwise before) (places : Places before entries key)
    (entry : Key × Value) :
    entry ∈ upsertEntries before key initial change entries ↔
      (entry ∈ entries ∧ entry.1 ≠ key) ∨
        entry = (key, change (((findEntry before key entries).map Prod.snd).getD initial)) := by
  induction entries with
  | nil => simp [upsertEntries, findEntry]
  | cons head rest inductionHypothesis =>
    obtain ⟨headKey, value⟩ := head
    rw [upsertEntries, findEntry]
    rcases places.head sorted with ⟨less, different⟩ | ⟨notLess, notGreater, rfl, others⟩ |
      ⟨notLess, greater, others⟩
    · have notGreater : ¬ before key headKey := fun greater =>
        Std.Irrefl.irrefl key (Trans.trans greater less)
      rw [if_neg notGreater, if_pos less, if_pos less, List.mem_cons, List.mem_cons,
        inductionHypothesis (List.pairwise_cons.mp sorted).2 places.tail, or_and_right, or_assoc]
      refine or_congr_left (iff_self_and.mpr ?_)
      rintro rfl
      exact different
    · rw [if_neg notGreater, if_neg notLess, if_neg notLess, if_neg notGreater]
      simp only [List.mem_cons, Option.map_some, Option.getD_some]
      constructor
      · rintro (rfl | inRest)
        · exact .inr rfl
        · exact .inl ⟨.inr inRest, others entry inRest⟩
      · rintro (⟨rfl | inRest, different⟩ | rfl)
        · exact absurd rfl different
        · exact .inr inRest
        · exact .inl rfl
    · rw [if_pos greater, if_neg notLess, if_pos greater, List.mem_cons, or_comm]
      refine or_congr_left ⟨fun member => ⟨member, others entry member⟩, And.left⟩

theorem mem_upsert [IsStrictOrder Key before] (map : SortedMap Key Value before) {key : Key}
    (places : Places before map.entries key) (initial : Value) (change : Value → Value)
    (entry : Key × Value) :
    entry ∈ (map.upsert key initial change).entries ↔
      (entry ∈ map.entries ∧ entry.1 ≠ key) ∨
        entry = (key, change ((map.find key).getD initial)) :=
  mem_upsertEntries initial change map.sorted places entry

/-- A key keeps its place when a key that has one is inserted. -/
theorem places_upsert [IsStrictOrder Key before] (map : SortedMap Key Value before)
    {key other : Key} (places : Places before map.entries key) (initial : Value)
    (change : Value → Value) (placesOther : Places before map.entries other)
    (decided : before key other ∨ key = other ∨ before other key) :
    Places before (map.upsert key initial change).entries other := by
  intro entry member
  rcases (map.mem_upsert places initial change entry).mp member with ⟨old, _⟩ | rfl
  · exact placesOther entry old
  · exact decided

theorem find_upsert_self [IsStrictOrder Key before] (map : SortedMap Key Value before) {key : Key}
    (places : Places before map.entries key) (initial : Value) (change : Value → Value) :
    (map.upsert key initial change).find key = some (change ((map.find key).getD initial)) := by
  rw [find_eq_some_iff _ (map.places_upsert places initial change places (.inr (.inl rfl))),
    mem_upsert _ places]
  exact .inr rfl

theorem find_upsert_other [IsStrictOrder Key before] (map : SortedMap Key Value before)
    {key other : Key} (places : Places before map.entries key) (initial : Value)
    (change : Value → Value) (placesOther : Places before map.entries other)
    (decided : before key other ∨ key = other ∨ before other key) (different : other ≠ key) :
    (map.upsert key initial change).find other = map.find other := by
  refine Option.ext fun value => ?_
  rw [find_eq_some_iff _ (map.places_upsert places initial change placesOther decided),
    mem_upsert _ places, find_eq_some_iff _ placesOther]
  constructor
  · rintro (⟨member, _⟩ | same)
    · exact member
    · exact absurd (congrArg Prod.fst same) different
  · exact fun member => .inl ⟨member, different⟩

end Insert

/-! ### Renaming keys -/

section Rename

variable {Other OtherValue : Type} {after : Other → Other → Prop}

/-- Rename the keys along an embedding of their order, and change the values. -/
def rename (map : SortedMap Key Value before) (keys : before ↪r after)
    (values : Value → OtherValue) : SortedMap Other OtherValue after where
  entries := map.entries.map (Prod.map keys values)
  sorted := by
    rw [List.map_map]
    exact List.pairwise_map.mpr ((List.pairwise_map.mp map.sorted).imp keys.map_rel_iff.mpr)

variable (map : SortedMap Key Value before) (keys : before ↪r after) (values : Value → OtherValue)
  (key : Key)

theorem find_rename [DecidableRel before] [DecidableRel after] :
    (map.rename keys values).find (keys key) = (map.find key).map values := by
  show (findEntry after (keys key) (map.entries.map (Prod.map keys values))).map Prod.snd =
    ((findEntry before key map.entries).map Prod.snd).map values
  induction map.entries with
  | nil => rfl
  | cons entry rest inductionHypothesis =>
    simp only [List.map_cons, findEntry, Prod.map_fst, keys.map_rel_iff]
    split_ifs
    · exact inductionHypothesis
    · rfl
    · rfl

theorem alterEntries_rename [DecidableRel before] [DecidableRel after]
    (entries : List (Key × Value)) (change : Value → Option Value)
    (otherChange : OtherValue → Option OtherValue)
    (changes : ∀ value, otherChange (values value) = (change value).map values) :
    alterEntries after (keys key) otherChange (entries.map (Prod.map keys values)) =
      (alterEntries before key change entries).map (Prod.map keys values) := by
  induction entries with
  | nil => rfl
  | cons entry rest inductionHypothesis =>
    obtain ⟨entryKey, value⟩ := entry
    simp only [List.map_cons, Prod.map_apply, alterEntries, keys.map_rel_iff, changes]
    split_ifs
    · rw [inductionHypothesis, List.map_cons, Prod.map_apply]
    · rfl
    · cases change value with
      | some changed => rfl
      | none => rfl

theorem set_rename [DecidableRel before] [DecidableRel after] (value : Value) :
    (map.rename keys values).set (keys key) (values value) =
      (map.set key value).rename keys values :=
  SortedMap.ext (alterEntries_rename keys values key map.entries _ _ fun _ => rfl)

theorem erase_rename [DecidableRel before] [DecidableRel after] :
    (map.rename keys values).erase (keys key) = (map.erase key).rename keys values :=
  SortedMap.ext (alterEntries_rename keys values key map.entries _ _ fun _ => rfl)

theorem upsert_rename [IsTrans Key before] [IsTrans Other after] [DecidableRel before]
    [DecidableRel after] (initial : Value) (change : Value → Value)
    (otherChange : OtherValue → OtherValue)
    (changes : ∀ value, otherChange (values value) = values (change value)) :
    (map.rename keys values).upsert (keys key) (values initial) otherChange =
      (map.upsert key initial change).rename keys values := by
  refine SortedMap.ext ?_
  simp only [upsert, rename]
  induction map.entries with
  | nil => simp [upsertEntries, changes]
  | cons entry rest inductionHypothesis =>
    obtain ⟨entryKey, value⟩ := entry
    simp only [List.map_cons, Prod.map_apply, upsertEntries, keys.map_rel_iff]
    split_ifs
    · simp [changes]
    · rw [inductionHypothesis, List.map_cons, Prod.map_apply]
    · simp [changes]

end Rename

/-! ### Maps of lists -/

section Concat

variable {Item : Type}

/-- All items, from the first key's list to the last key's. -/
def concat (map : SortedMap Key (List Item) before) : List Item :=
  map.entries.flatMap Prod.snd

theorem mem_concat (map : SortedMap Key (List Item) before) (item : Item) :
    item ∈ map.concat ↔ ∃ entry ∈ map.entries, item ∈ entry.2 :=
  List.mem_flatMap

/-- Items that know their key are sorted by key along the concatenation. -/
theorem concat_pairwise (map : SortedMap Key (List Item) before) {key : Item → Key}
    (own : ∀ entry ∈ map.entries, ∀ item ∈ entry.2, key item = entry.1) :
    map.concat.Pairwise fun first second => before (key first) (key second) ∨
      key first = key second := by
  refine List.pairwise_flatMap.mpr ⟨?_, ?_⟩
  · intro entry member
    refine List.pairwise_of_forall_mem_list fun first inFirst second inSecond => .inr ?_
    rw [own entry member first inFirst, own entry member second inSecond]
  · refine (List.pairwise_map.mp map.sorted).imp_of_mem ?_
    intro first second memberFirst memberSecond less item inFirst other inSecond
    rw [own first memberFirst item inFirst, own second memberSecond other inSecond]
    exact .inl less

theorem upsertEntries_append_split [IsStrictOrder Key before] [DecidableRel before]
    (key : Key) (item : Item) (entries : List (Key × List Item))
    (sorted : (entries.map Prod.fst).Pairwise before) :
    ∃ front back, entries.flatMap Prod.snd = front ++ back ∧
      (upsertEntries before key [] (· ++ [item]) entries).flatMap Prod.snd =
        front ++ item :: back ∧
      (Places before entries key →
        ∀ other ∈ back, ∃ entry ∈ entries, other ∈ entry.2 ∧ before key entry.1) := by
  induction entries with
  | nil => exact ⟨[], [], rfl, rfl, fun _ _ member => absurd member List.not_mem_nil⟩
  | cons entry rest inductionHypothesis =>
    obtain ⟨entryKey, value⟩ := entry
    obtain ⟨headSorted, restSorted⟩ := List.pairwise_cons.mp sorted
    unfold upsertEntries
    split_ifs with less greater
    · refine ⟨[], ((entryKey, value) :: rest).flatMap Prod.snd, rfl, rfl, ?_⟩
      intro _ other member
      obtain ⟨entry, inEntries, inLevel⟩ := List.mem_flatMap.mp member
      refine ⟨entry, inEntries, inLevel, ?_⟩
      rcases List.mem_cons.mp inEntries with rfl | inRest
      · exact less
      · exact Trans.trans less (headSorted entry.1 (List.mem_map_of_mem inRest))
    · obtain ⟨front, back, split, inserted, behind⟩ := inductionHypothesis restSorted
      refine ⟨value ++ front, back, ?_, ?_, ?_⟩
      · rw [List.flatMap_cons, split, List.append_assoc]
      · rw [List.flatMap_cons, inserted, List.append_assoc]
      · intro places other member
        obtain ⟨entry, inRest, inLevel⟩ := behind places.tail other member
        exact ⟨entry, List.mem_cons_of_mem _ inRest, inLevel⟩
    · refine ⟨value, rest.flatMap Prod.snd, rfl, ?_, ?_⟩
      · rw [List.flatMap_cons, List.append_assoc, List.singleton_append]
      · intro places other member
        obtain rfl : entryKey = key :=
          ((places _ List.mem_cons_self).resolve_left greater).resolve_right less
        obtain ⟨entry, inRest, inLevel⟩ := List.mem_flatMap.mp member
        exact ⟨entry, List.mem_cons_of_mem _ inRest, inLevel,
          headSorted entry.1 (List.mem_map_of_mem inRest)⟩

/-- Appending an item to the list at a key inserts it in front of all items of later keys. -/
theorem concat_upsert_split [IsStrictOrder Key before] [DecidableRel before]
    (map : SortedMap Key (List Item) before) (key : Key) (item : Item) :
    ∃ front back, map.concat = front ++ back ∧
      (map.upsert key [] (· ++ [item])).concat = front ++ item :: back ∧
      (Places before map.entries key →
        ∀ other ∈ back, ∃ entry ∈ map.entries, other ∈ entry.2 ∧ before key entry.1) :=
  upsertEntries_append_split key item map.entries map.sorted

theorem places_of_upsertEntries [IsStrictOrder Key before] [DecidableRel before] {key : Key}
    {item : Item} {entries : List (Key × List Item)}
    (sorted : (entries.map Prod.fst).Pairwise before)
    (own : ∀ entry ∈ upsertEntries before key [] (· ++ [item]) entries,
      item ∈ entry.2 → entry.1 = key) : Places before entries key := by
  induction entries with
  | nil => exact fun _ member => absurd member List.not_mem_nil
  | cons head rest inductionHypothesis =>
    obtain ⟨headKey, value⟩ := head
    obtain ⟨headSorted, restSorted⟩ := List.pairwise_cons.mp sorted
    rw [upsertEntries] at own
    intro entry member
    split_ifs at own with less greater
    · refine .inr (.inr ?_)
      rcases List.mem_cons.mp member with rfl | inRest
      · exact less
      · exact Trans.trans less (headSorted entry.1 (List.mem_map_of_mem inRest))
    · rcases List.mem_cons.mp member with rfl | inRest
      · exact .inl greater
      · exact inductionHypothesis restSorted
          (fun other inOthers => own other (List.mem_cons_of_mem _ inOthers)) entry inRest
    · have isKey : headKey = key :=
        own _ List.mem_cons_self (List.mem_append_right _ (List.mem_singleton_self item))
      rcases List.mem_cons.mp member with rfl | inRest
      · exact .inr (.inl isKey)
      · exact .inr (.inr (isKey ▸ headSorted entry.1 (List.mem_map_of_mem inRest)))

/-- A key whose list receives the item appended at it has a place. -/
theorem places_of_upsert [IsStrictOrder Key before] [DecidableRel before]
    (map : SortedMap Key (List Item) before) {key : Key} {item : Item}
    (own : ∀ entry ∈ (map.upsert key [] (· ++ [item])).entries, item ∈ entry.2 → entry.1 = key) :
    Places before map.entries key :=
  places_of_upsertEntries map.sorted own

/-- Appending an item to the list at a key adds exactly that item. -/
theorem concat_upsert_append [IsStrictOrder Key before] [DecidableRel before]
    (map : SortedMap Key (List Item) before) (key : Key) (item : Item) :
    (map.upsert key [] (· ++ [item])).concat.Perm (item :: map.concat) := by
  obtain ⟨front, back, split, inserted, _⟩ := map.concat_upsert_split key item
  rw [split, inserted]
  exact List.perm_middle

theorem alterEntries_flatMap [IsStrictOrder Key before] [DecidableRel before] {key : Key}
    {level : List Item} {keep : Item → Bool} {change : List Item → Option (List Item)}
    (changed : (change level).getD [] = level.filter keep) {entries : List (Key × List Item)}
    (sorted : (entries.map Prod.fst).Pairwise before) (places : Places before entries key)
    (present : (key, level) ∈ entries)
    (others : ∀ entry ∈ entries, entry.1 ≠ key → ∀ item ∈ entry.2, keep item) :
    (alterEntries before key change entries).flatMap Prod.snd =
      (entries.flatMap Prod.snd).filter keep := by
  induction entries with
  | nil => cases present
  | cons entry rest inductionHypothesis =>
    obtain ⟨entryKey, value⟩ := entry
    have restKept : ∀ other ∈ rest, other.1 ≠ key → ∀ item ∈ other.2, keep item :=
      fun other member => others other (List.mem_cons_of_mem _ member)
    rw [alterEntries, List.flatMap_cons, List.filter_append]
    rcases places.head sorted with ⟨less, different⟩ | ⟨notLess, notGreater, isKey, absent⟩ |
      ⟨_, _, absent⟩
    · have inRest : (key, level) ∈ rest := (List.mem_cons.mp present).resolve_left fun same =>
        different (congrArg Prod.fst same).symm
      rw [if_pos less, List.flatMap_cons,
        inductionHypothesis (List.pairwise_cons.mp sorted).2 places.tail inRest restKept,
        List.filter_eq_self.mpr (others _ List.mem_cons_self different)]
    · have isLevel : level = value := congrArg Prod.snd
        ((List.mem_cons.mp present).resolve_right fun inRest => absent _ inRest rfl)
      have restSame : (rest.flatMap Prod.snd).filter keep = rest.flatMap Prod.snd := by
        refine List.filter_eq_self.mpr fun item member => ?_
        obtain ⟨other, inRest, inOther⟩ := List.mem_flatMap.mp member
        exact restKept other inRest (absent other inRest) item inOther
      rw [if_neg notLess, if_neg notGreater, restSame, ← isLevel, ← changed]
      cases change level with
      | some kept => rw [List.flatMap_cons, Option.getD_some]
      | none => rw [Option.getD_none, List.nil_append]
    · exact absurd rfl (absent _ present)

/-- Filtering one key's list, when the filter keeps every item of the other lists, filters
the concatenation. -/
theorem concat_set_filter [IsStrictOrder Key before] [DecidableRel before]
    (map : SortedMap Key (List Item) before) {key : Key} {level : List Item}
    {keep : Item → Bool} (present : (key, level) ∈ map.entries)
    (others : ∀ entry ∈ map.entries, entry.1 ≠ key → ∀ item ∈ entry.2, keep item) :
    (map.set key (level.filter keep)).concat = map.concat.filter keep :=
  alterEntries_flatMap rfl map.sorted (map.places_of_mem present) present others

/-- Removing a key whose filtered list is empty, when the filter keeps every item of the
other lists, filters the concatenation. -/
theorem concat_erase_filter [IsStrictOrder Key before] [DecidableRel before]
    (map : SortedMap Key (List Item) before) {key : Key} {level : List Item}
    {keep : Item → Bool} (present : (key, level) ∈ map.entries)
    (emptied : level.filter keep = [])
    (others : ∀ entry ∈ map.entries, entry.1 ≠ key → ∀ item ∈ entry.2, keep item) :
    (map.erase key).concat = map.concat.filter keep := by
  have removed : ((fun _ => none : List Item → Option (List Item)) level).getD [] =
      level.filter keep := emptied.symm
  exact alterEntries_flatMap removed map.sorted (map.places_of_mem present) present others

/-! ### Items that know their key determine the map -/

/-- What the concatenation holds of a key is that key's list. -/
theorem filter_concat [Std.Irrefl before] [DecidableEq Key]
    (map : SortedMap Key (List Item) before) {key : Item → Key}
    (own : ∀ entry ∈ map.entries, ∀ item ∈ entry.2, key item = entry.1)
    {entry : Key × List Item} (member : entry ∈ map.entries) :
    map.concat.filter (fun item => key item = entry.1) = entry.2 := by
  obtain ⟨front, back, split⟩ := List.append_of_mem member
  have others : ∀ other ∈ front ++ back, other.1 ≠ entry.1 := by
    intro other inOthers same
    have distinct := map.nodup_keys
    rw [split, List.map_append, List.map_cons, List.nodup_middle, List.nodup_cons,
      ← List.map_append] at distinct
    exact distinct.1 (same ▸ List.mem_map_of_mem inOthers)
  have outside : ∀ entries : List (Key × List Item), (∀ other ∈ entries, other ∈ map.entries) →
      (∀ other ∈ entries, other.1 ≠ entry.1) →
      (entries.flatMap Prod.snd).filter (fun item => key item = entry.1) = [] := by
    intro entries inMap different
    refine List.filter_eq_nil_iff.mpr fun item inEntries => ?_
    obtain ⟨other, inOthers, inList⟩ := List.mem_flatMap.mp inEntries
    rw [own other (inMap other inOthers) item inList]
    simpa using different other inOthers
  have inFront : ∀ other ∈ front, other ∈ map.entries := fun other member =>
    split ▸ List.mem_append_left _ member
  have inBack : ∀ other ∈ back, other ∈ map.entries := fun other member =>
    split ▸ List.mem_append_right _ (List.mem_cons_of_mem _ member)
  rw [concat, split, List.flatMap_append, List.flatMap_cons, List.filter_append,
    List.filter_append,
    outside front inFront fun other member => others other (List.mem_append_left _ member),
    outside back inBack fun other member => others other (List.mem_append_right _ member),
    List.nil_append, List.append_nil]
  exact List.filter_eq_self.mpr fun item inList =>
    decide_eq_true (own entry member item inList)

/-- Maps with the same entries are the same map. -/
theorem ext_mem [IsStrictOrder Key before] {first second : SortedMap Key Value before}
    (same : ∀ entry, entry ∈ first.entries ↔ entry ∈ second.entries) : first = second := by
  have : Std.Antisymm fun left right : Key × Value => before left.1 right.1 :=
    ⟨fun left right less more => absurd (Trans.trans less more) (Std.Irrefl.irrefl left.1)⟩
  have : Std.Irrefl fun left right : Key × Value => before left.1 right.1 :=
    ⟨fun entry => Std.Irrefl.irrefl entry.1⟩
  exact SortedMap.ext (List.Pairwise.eq_of_mem_iff (List.pairwise_map.mp first.sorted)
    (List.pairwise_map.mp second.sorted) same)

/-- Maps of nonempty lists with the same concatenation are the same map. -/
theorem concat_injective [IsStrictOrder Key before] [DecidableEq Key]
    {first second : SortedMap Key (List Item) before} {key : Item → Key}
    (ownFirst : ∀ entry ∈ first.entries, ∀ item ∈ entry.2, key item = entry.1)
    (ownSecond : ∀ entry ∈ second.entries, ∀ item ∈ entry.2, key item = entry.1)
    (nonemptyFirst : ∀ entry ∈ first.entries, entry.2 ≠ [])
    (nonemptySecond : ∀ entry ∈ second.entries, entry.2 ≠ [])
    (same : first.concat = second.concat) : first = second := by
  have half : ∀ left right : SortedMap Key (List Item) before,
      (∀ entry ∈ left.entries, ∀ item ∈ entry.2, key item = entry.1) →
      (∀ entry ∈ right.entries, ∀ item ∈ entry.2, key item = entry.1) →
      (∀ entry ∈ left.entries, entry.2 ≠ []) → left.concat = right.concat →
      ∀ entry ∈ left.entries, entry ∈ right.entries := by
    intro left right ownLeft ownRight nonempty same entry member
    obtain ⟨item, inList⟩ := List.exists_mem_of_ne_nil entry.2 (nonempty entry member)
    have inConcat : item ∈ right.concat := by
      rw [← same, mem_concat]
      exact ⟨entry, member, inList⟩
    obtain ⟨other, inRight, inOther⟩ := (mem_concat _ _).mp inConcat
    have sameKey : other.1 = entry.1 := by
      rw [← ownRight other inRight item inOther, ownLeft entry member item inList]
    have sameList : other.2 = entry.2 := by
      rw [← filter_concat left ownLeft member, ← filter_concat right ownRight inRight, same,
        sameKey]
    exact Prod.ext sameKey sameList ▸ inRight
  exact ext_mem fun entry => ⟨half first second ownFirst ownSecond nonemptyFirst same entry,
    half second first ownSecond ownFirst nonemptySecond same.symm entry⟩

end Concat

end SortedMap
