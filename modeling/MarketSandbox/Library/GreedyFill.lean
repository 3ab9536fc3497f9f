/-
This file develops greedy filling. A wanted amount is filled from a list of
items in order: each item gives what it has or what is still wanted, whichever
is less, until nothing is wanted or no item is left. It gives the fills, the
items left over, how both distribute over appended lists, and how the total
filled relates to the wanted amount and to what is left.
-/

import Mathlib.Algebra.BigOperators.Group.List.Basic
import Mathlib.Algebra.Order.BigOperators.Group.List
import Mathlib.Algebra.Order.Group.Int
import Mathlib.Tactic.SplitIfs
import Mathlib.Tactic.Ring

namespace GreedyFill

variable {Item : Type} (quantity : Item → Int) (reduce : Item → Int → Item)

/-- The items taken from, each with the amount it gives. -/
def fills : Int → List Item → List (Item × Int)
  | _, [] => []
  | wanted, item :: rest =>
    if wanted ≤ 0 then []
    else (item, min wanted (quantity item)) :: fills (wanted - min wanted (quantity item)) rest

/-- The items left, the last one taken from reduced by what it gave if it has more. -/
def leftover : Int → List Item → List Item
  | _, [] => []
  | wanted, item :: rest =>
    if wanted ≤ 0 then item :: rest
    else if quantity item ≤ wanted then leftover (wanted - quantity item) rest
    else reduce item wanted :: rest

/-- The items that give all they have. -/
def exhausted : Int → List Item → List Item
  | _, [] => []
  | wanted, item :: rest =>
    if wanted ≤ 0 then []
    else if quantity item ≤ wanted then item :: exhausted (wanted - quantity item) rest
    else []

/-- The total amount given. -/
def total (wanted : Int) (items : List Item) : Int :=
  ((fills quantity wanted items).map Prod.snd).sum

/-- Every item has a positive amount. -/
def Positive (items : List Item) : Prop :=
  ∀ item ∈ items, 0 < quantity item

variable {quantity reduce}

theorem Positive.tail {item : Item} {rest : List Item}
    (positive : Positive quantity (item :: rest)) : Positive quantity rest :=
  fun other member => positive other (List.mem_cons_of_mem _ member)

theorem Positive.append_right {front back : List Item}
    (positive : Positive quantity (front ++ back)) : Positive quantity back :=
  fun item member => positive item (List.mem_append_right _ member)

/-! ### Nothing wanted -/

theorem fills_of_nonpos {wanted : Int} (nothing : wanted ≤ 0) (items : List Item) :
    fills quantity wanted items = [] := by
  cases items with
  | nil => rfl
  | cons item rest => rw [fills, if_pos nothing]

theorem leftover_of_nonpos {wanted : Int} (nothing : wanted ≤ 0) (items : List Item) :
    leftover quantity reduce wanted items = items := by
  cases items with
  | nil => rfl
  | cons item rest => rw [leftover, if_pos nothing]

theorem exhausted_of_nonpos {wanted : Int} (nothing : wanted ≤ 0) (items : List Item) :
    exhausted quantity wanted items = [] := by
  cases items with
  | nil => rfl
  | cons item rest => rw [exhausted, if_pos nothing]

theorem total_of_nonpos {wanted : Int} (nothing : wanted ≤ 0) (items : List Item) :
    total quantity wanted items = 0 := by
  rw [total, fills_of_nonpos nothing, List.map_nil, List.sum_nil]

/-- Only items of the list are filled. -/
theorem mem_of_mem_fills {wanted : Int} {items : List Item} {fill : Item × Int}
    (member : fill ∈ fills quantity wanted items) : fill.1 ∈ items := by
  induction items generalizing wanted with
  | nil => cases member
  | cons item rest inductionHypothesis =>
    rw [fills] at member
    split_ifs at member
    · cases member
    · rcases List.mem_cons.mp member with rfl | inRest
      · exact List.mem_cons_self
      · exact List.mem_cons_of_mem _ (inductionHypothesis inRest)

/-- The items filled are the first ones. -/
theorem fills_are_first (wanted : Int) (items : List Item) :
    (fills quantity wanted items).map Prod.fst <+: items := by
  induction items generalizing wanted with
  | nil => exact List.prefix_rfl
  | cons item rest inductionHypothesis =>
    rw [fills]
    split_ifs
    · exact List.nil_prefix
    · exact List.cons_prefix_cons.mpr ⟨rfl, inductionHypothesis _⟩

@[simp] theorem total_nil (wanted : Int) : total quantity wanted [] = 0 := rfl

theorem total_cons {wanted : Int} (wants : 0 < wanted) (item : Item) (rest : List Item) :
    total quantity wanted (item :: rest) =
      min wanted (quantity item) +
        total quantity (wanted - min wanted (quantity item)) rest := by
  rw [total, fills, if_neg (by omega), List.map_cons, List.sum_cons]
  rfl

/-! ### Appended lists -/

theorem fills_append (wanted : Int) (front back : List Item) :
    fills quantity wanted (front ++ back) =
      fills quantity wanted front ++
        fills quantity (wanted - total quantity wanted front) back := by
  induction front generalizing wanted with
  | nil => simp [fills]
  | cons item rest inductionHypothesis =>
    by_cases nothing : wanted ≤ 0
    · rw [fills_of_nonpos nothing, fills_of_nonpos nothing, total_of_nonpos nothing, sub_zero,
        fills_of_nonpos nothing, List.append_nil]
    · rw [total_cons (by omega), List.cons_append, fills, if_neg nothing, fills, if_neg nothing,
        inductionHypothesis, List.cons_append, sub_add_eq_sub_sub]

theorem total_append (wanted : Int) (front back : List Item) :
    total quantity wanted (front ++ back) =
      total quantity wanted front +
        total quantity (wanted - total quantity wanted front) back := by
  rw [total, fills_append, List.map_append, List.sum_append]
  rfl

theorem leftover_append {wanted : Int} {front back : List Item} :
    leftover quantity reduce wanted (front ++ back) =
      leftover quantity reduce wanted front ++
        leftover quantity reduce (wanted - total quantity wanted front) back := by
  induction front generalizing wanted with
  | nil => simp [leftover]
  | cons item rest inductionHypothesis =>
    by_cases nothing : wanted ≤ 0
    · rw [leftover_of_nonpos nothing, leftover_of_nonpos nothing, total_of_nonpos nothing,
        sub_zero, leftover_of_nonpos nothing]
    · rw [total_cons (by omega), List.cons_append, leftover, if_neg nothing, leftover,
        if_neg nothing]
      split_ifs with enough
      · rw [min_eq_right enough, inductionHypothesis, sub_add_eq_sub_sub]
      · rw [min_eq_left (by omega), sub_self, total_of_nonpos le_rfl, add_zero, sub_self,
          leftover_of_nonpos le_rfl, List.cons_append]

theorem exhausted_append {wanted : Int} {front back : List Item} :
    exhausted quantity wanted (front ++ back) =
      exhausted quantity wanted front ++
        exhausted quantity (wanted - total quantity wanted front) back := by
  induction front generalizing wanted with
  | nil => simp [exhausted]
  | cons item rest inductionHypothesis =>
    by_cases nothing : wanted ≤ 0
    · rw [exhausted_of_nonpos nothing, exhausted_of_nonpos nothing, total_of_nonpos nothing,
        sub_zero, exhausted_of_nonpos nothing, List.append_nil]
    · rw [total_cons (by omega), List.cons_append, exhausted, if_neg nothing, exhausted,
        if_neg nothing]
      split_ifs with enough
      · rw [min_eq_right enough, inductionHypothesis, sub_add_eq_sub_sub,
          List.cons_append]
      · rw [min_eq_left (by omega), sub_self, total_of_nonpos le_rfl, add_zero, sub_self,
          exhausted_of_nonpos le_rfl, List.append_nil]

/-- The items split into the exhausted ones and those left, where the first one left may
have been reduced by less than it has. -/
theorem exhausted_leftover_split (quantity : Item → Int) (reduce : Item → Int → Item)
    (wanted : Int) (items : List Item) :
    ∃ back, items = exhausted quantity wanted items ++ back ∧
      (leftover quantity reduce wanted items = back ∨
        ∃ item rest amount, back = item :: rest ∧ 0 < amount ∧ amount < quantity item ∧
          leftover quantity reduce wanted items = reduce item amount :: rest) := by
  induction items generalizing wanted with
  | nil => exact ⟨[], rfl, .inl rfl⟩
  | cons item rest inductionHypothesis =>
    by_cases nothing : wanted ≤ 0
    · rw [exhausted_of_nonpos nothing, leftover_of_nonpos nothing]
      exact ⟨item :: rest, rfl, .inl rfl⟩
    · rw [exhausted, if_neg nothing, leftover, if_neg nothing]
      split_ifs with enough
      · obtain ⟨back, split, left⟩ := inductionHypothesis (wanted - quantity item)
        exact ⟨back, congrArg (item :: ·) split, left⟩
      · exact ⟨item :: rest, rfl, .inr ⟨item, rest, wanted, rfl, by omega, by omega, rfl⟩⟩

/-- Beside the exhausted items at most one is taken from. -/
theorem length_fills_le (wanted : Int) (items : List Item) :
    (fills quantity wanted items).length ≤ (exhausted quantity wanted items).length + 1 := by
  induction items generalizing wanted with
  | nil => exact Nat.zero_le _
  | cons item rest inductionHypothesis =>
    by_cases nothing : wanted ≤ 0
    · rw [fills_of_nonpos nothing]
      exact Nat.zero_le _
    · rw [fills, if_neg nothing, exhausted, if_neg nothing]
      split_ifs with enough
      · rw [min_eq_right enough]
        exact Nat.succ_le_succ (inductionHypothesis _)
      · rw [min_eq_left (by omega), fills_of_nonpos (by omega)]
        exact le_rfl

/-- An item left is an item, or one reduced by a positive amount. -/
theorem mem_leftover {wanted : Int} {items : List Item} {left : Item}
    (member : left ∈ leftover quantity reduce wanted items) :
    left ∈ items ∨ ∃ item ∈ items, ∃ amount, 0 < amount ∧ left = reduce item amount := by
  obtain ⟨back, split, rfl | ⟨item, rest, amount, rfl, positive, _, reduced⟩⟩ :=
    exhausted_leftover_split quantity reduce wanted items
  · rw [split]
    exact .inl (List.mem_append_right _ member)
  · rw [reduced] at member
    rw [split]
    rcases List.mem_cons.mp member with rfl | inRest
    · exact .inr ⟨item, List.mem_append_right _ List.mem_cons_self, amount, positive, rfl⟩
    · exact .inl (List.mem_append_right _ (List.mem_cons_of_mem _ inRest))

/-- A view that reducing an item does not change sees the items left as a suffix. -/
theorem map_split (quantity : Item → Int) (reduce : Item → Int → Item) {View : Type}
    (view : Item → View) (unchanged : ∀ item amount, view (reduce item amount) = view item)
    (wanted : Int) (items : List Item) :
    items.map view =
      (exhausted quantity wanted items).map view ++
        (leftover quantity reduce wanted items).map view := by
  obtain ⟨back, split, rfl | ⟨item, rest, amount, rfl, _, _, reduced⟩⟩ :=
    exhausted_leftover_split quantity reduce wanted items
  · conv_lhs => rw [split]
    rw [List.map_append]
  · conv_lhs => rw [split]
    rw [List.map_append, reduced, List.map_cons, List.map_cons, unchanged]

theorem leftover_positive
    (reduced : ∀ item amount, quantity (reduce item amount) = quantity item - amount)
    {wanted : Int} {items : List Item} (positive : Positive quantity items) :
    Positive quantity (leftover quantity reduce wanted items) := by
  obtain ⟨back, split, left⟩ :=
    exhausted_leftover_split quantity reduce wanted items
  rw [split] at positive
  rcases left with left | ⟨item, rest, amount, rfl, _, less, left⟩
  · rw [left]
    exact positive.append_right
  · rw [left]
    intro other member
    rcases List.mem_cons.mp member with rfl | inRest
    · rw [reduced]
      omega
    · exact positive.append_right.tail other inRest

/-! ### Totals -/

theorem total_nonneg (wanted : Int) {items : List Item} (positive : Positive quantity items) :
    0 ≤ total quantity wanted items := by
  induction items generalizing wanted with
  | nil => simp
  | cons item rest inductionHypothesis =>
    have itemPositive := positive item List.mem_cons_self
    by_cases nothing : wanted ≤ 0
    · rw [total_of_nonpos nothing]
    · rw [total_cons (by omega)]
      have restTotal := inductionHypothesis (wanted - min wanted (quantity item)) positive.tail
      omega

theorem total_le (wanted : Int) (wants : 0 ≤ wanted) (items : List Item) :
    total quantity wanted items ≤ wanted := by
  induction items generalizing wanted with
  | nil => simpa
  | cons item rest inductionHypothesis =>
    by_cases nothing : wanted ≤ 0
    · rw [total_of_nonpos nothing]
      exact wants
    · rw [total_cons (by omega)]
      have restTotal := inductionHypothesis (wanted - min wanted (quantity item)) (by omega)
      omega

/-- Something stays wanted when the items have less. -/
theorem total_lt_iff {wanted : Int} {items : List Item} (positive : Positive quantity items) :
    total quantity wanted items < wanted ↔ (items.map quantity).sum < wanted := by
  induction items generalizing wanted with
  | nil => simp
  | cons item rest inductionHypothesis =>
    have itemPositive := positive item List.mem_cons_self
    have restNonneg : 0 ≤ (rest.map quantity).sum :=
      List.sum_nonneg fun amount member => by
        obtain ⟨other, inRest, rfl⟩ := List.mem_map.mp member
        exact (positive.tail other inRest).le
    rw [List.map_cons, List.sum_cons]
    by_cases nothing : wanted ≤ 0
    · rw [total_of_nonpos nothing]
      omega
    · rw [total_cons (by omega)]
      have later := @inductionHypothesis (wanted - min wanted (quantity item)) positive.tail
      omega

/-- The fills of a list reach its back part when the front part has less than is wanted. -/
theorem fills_reach_iff {wanted : Int} {front back : List Item} (picks : Item → Prop)
    (positive : Positive quantity front) (notFront : ∀ item ∈ front, ¬ picks item)
    (isBack : ∀ item ∈ back, picks item) :
    (∃ fill ∈ fills quantity wanted (front ++ back), picks fill.1) ↔
      back ≠ [] ∧ (front.map quantity).sum < wanted := by
  rw [fills_append, ← total_lt_iff positive]
  constructor
  · rintro ⟨fill, member, picked⟩
    rcases List.mem_append.mp member with inFront | inBack
    · exact absurd picked (notFront _ (mem_of_mem_fills inFront))
    · refine ⟨List.ne_nil_of_mem (mem_of_mem_fills inBack), ?_⟩
      by_contra full
      rw [fills_of_nonpos (by omega)] at inBack
      cases inBack
  · rintro ⟨nonempty, unfilled⟩
    obtain ⟨item, rest, rfl⟩ := List.exists_cons_of_ne_nil nonempty
    rw [fills, if_neg (by omega)]
    exact ⟨_, List.mem_append_right _ List.mem_cons_self, isBack item List.mem_cons_self⟩

/-- Something stays wanted only if no item is left. -/
theorem leftover_eq_nil (reduce : Item → Int → Item) {wanted : Int} {items : List Item}
    (unfilled : total quantity wanted items < wanted) :
    leftover quantity reduce wanted items = [] := by
  induction items generalizing wanted with
  | nil => rfl
  | cons item rest inductionHypothesis =>
    by_cases nothing : wanted ≤ 0
    · rw [total_of_nonpos nothing] at unfilled
      omega
    · rw [total_cons (by omega)] at unfilled
      rw [leftover, if_neg nothing]
      split_ifs with enough
      · rw [min_eq_right enough] at unfilled
        exact inductionHypothesis (by omega)
      · rw [min_eq_left (by omega), sub_self, total_of_nonpos le_rfl] at unfilled
        omega

theorem fills_positive {wanted : Int} {items : List Item} (positive : Positive quantity items)
    {fill : Item × Int} (member : fill ∈ fills quantity wanted items) : 0 < fill.2 := by
  induction items generalizing wanted with
  | nil => cases member
  | cons item rest inductionHypothesis =>
    have itemPositive := positive item List.mem_cons_self
    rw [fills] at member
    split_ifs at member with nothing
    · cases member
    · rcases List.mem_cons.mp member with rfl | inRest
      · exact lt_min (by omega) itemPositive
      · exact inductionHypothesis positive.tail inRest

/-- Of the items a test picks, what they have is what they give and what stays with them. -/
theorem quantity_conserved (quantity : Item → Int) (reduce : Item → Int → Item)
    (picks : Item → Bool) (kept : ∀ item amount, picks (reduce item amount) = picks item)
    (reduced : ∀ item amount, quantity (reduce item amount) = quantity item - amount)
    (wanted : Int) (items : List Item) :
    ((items.filter picks).map quantity).sum =
      (((fills quantity wanted items).filter fun fill => picks fill.1).map Prod.snd).sum +
        (((leftover quantity reduce wanted items).filter picks).map quantity).sum := by
  induction items generalizing wanted with
  | nil => rfl
  | cons item rest inductionHypothesis =>
    by_cases nothing : wanted ≤ 0
    · rw [fills_of_nonpos nothing, leftover_of_nonpos nothing]
      simp
    · rw [fills, if_neg nothing, leftover, if_neg nothing]
      by_cases enough : quantity item ≤ wanted
      · have restSum := inductionHypothesis (wanted - quantity item)
        rw [if_pos enough, min_eq_right enough]
        by_cases picked : picks item
        · simp only [List.filter_cons, picked, if_true, List.map_cons, List.sum_cons]
          omega
        · simpa only [List.filter_cons, picked, Bool.false_eq_true, if_false] using restSum
      · have restSum := inductionHypothesis 0
        rw [fills_of_nonpos le_rfl, leftover_of_nonpos le_rfl] at restSum
        rw [if_neg enough, min_eq_left (by omega), sub_self, fills_of_nonpos le_rfl]
        by_cases picked : picks item
        · simp only [List.filter_cons, List.filter_nil, kept, picked, if_true, List.map_cons,
            List.map_nil, List.sum_cons, List.sum_nil, reduced]
          omega
        · simp only [List.filter_cons, List.filter_nil, kept, picked, Bool.false_eq_true, if_false,
            List.map_nil, List.sum_nil]
          omega

/-! ### Renaming the items -/

theorem fills_map {Other : Type} (otherQuantity : Other → Int) (rename : Item → Other)
    (same : ∀ item, otherQuantity (rename item) = quantity item) (wanted : Int)
    (items : List Item) :
    fills otherQuantity wanted (items.map rename) =
      (fills quantity wanted items).map (Prod.map rename id) := by
  induction items generalizing wanted with
  | nil => rfl
  | cons item rest inductionHypothesis =>
    rw [List.map_cons, fills, fills, same]
    split_ifs
    · rfl
    · rw [inductionHypothesis]
      rfl

theorem leftover_map (quantity : Item → Int) (reduce : Item → Int → Item) {Other : Type}
    {otherQuantity : Other → Int} {otherReduce : Other → Int → Other} (rename : Item → Other)
    (same : ∀ item, otherQuantity (rename item) = quantity item)
    (reduced : ∀ item amount, otherReduce (rename item) amount = rename (reduce item amount))
    (wanted : Int) (items : List Item) :
    leftover otherQuantity otherReduce wanted (items.map rename) =
      (leftover quantity reduce wanted items).map rename := by
  induction items generalizing wanted with
  | nil => rfl
  | cons item rest inductionHypothesis =>
    rw [List.map_cons, leftover, leftover, same]
    split_ifs
    · rfl
    · exact inductionHypothesis _
    · rw [reduced, List.map_cons]

end GreedyFill
