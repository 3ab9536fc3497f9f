/-
This file proves that every operation keeps the book valid. In a valid book no
level is empty, every resting order has positive quantity and sits in the
level of its own price, and the order index holds exactly one entry per
resting order, which points at that order's node. Cancelling in a valid book
never looks up a missing level and never follows a dangling iterator.
-/

import MarketSandbox.Exchange.Matching
import MarketSandbox.Library.Index

namespace MarketSandbox

open GreedyFill

variable {Price : Type}

/-- A resting node as its entry of the order index: its order's id and its location. -/
def locate (side : BookSide) (node : RestingNode Price) : String × OrderLocation Price :=
  (node.order.orderId, ⟨side.tag, node.order.price, node.address⟩)

namespace OrderBook

/-! ### The invariant -/

section Located

variable [LT Price]

/-- The entries the order index must have. -/
def located (book : OrderBook Price) : List (String × OrderLocation Price) :=
  (book.nodes .bid).map (locate .bid) ++ (book.nodes .ask).map (locate .ask)

theorem located_perm (book : OrderBook Price) (side : BookSide) :
    book.located.Perm ((book.nodes side).map (locate side) ++
      (book.nodes side.opposite).map (locate side.opposite)) := by
  cases side with
  | bid => exact .refl _
  | ask => exact List.perm_append_comm

theorem mem_located (book : OrderBook Price) (entry : String × OrderLocation Price) :
    entry ∈ book.located ↔ ∃ side, ∃ node ∈ book.nodes side, locate side node = entry := by
  rw [located, List.mem_append, List.mem_map, List.mem_map]
  constructor
  · rintro (found | found)
    · exact ⟨.bid, found⟩
    · exact ⟨.ask, found⟩
  · rintro ⟨side, found⟩
    cases side with
    | bid => exact .inl found
    | ask => exact .inr found

theorem restingOrders_perm (book : OrderBook Price) (side : BookSide) :
    book.restingOrders.Perm (book.resting side ++ book.resting side.opposite) := by
  cases side with
  | bid => exact .refl _
  | ask => exact List.perm_append_comm

theorem restingIds_eq (book : OrderBook Price) :
    book.restingIds = book.located.map Prod.fst := by
  rw [restingIds, restingOrders, located, resting, resting, List.map_append, List.map_append,
    List.map_map, List.map_map, List.map_map, List.map_map]
  rfl

theorem orderId_mem_restingIds {book : OrderBook Price} {side : BookSide}
    {node : RestingNode Price} (member : node ∈ book.nodes side) :
    node.order.orderId ∈ book.restingIds := by
  rw [restingIds_eq]
  exact List.mem_map_of_mem ((book.mem_located _).mpr ⟨side, node, member, rfl⟩)

/-- A book whose levels and index are wired together as the operations keep them, whatever the
quantities. -/
structure Wired (book : OrderBook Price) : Prop where
  nonempty : ∀ side, ∀ entry ∈ (book.levels side).entries, entry.2 ≠ []
  ownPrice : ∀ side, OwnPrices (book.levels side).entries
  indexes : Indexes book.orderIndex book.located
  addresses : (book.located.map fun entry => entry.2.it).Nodup
  allocated : ∀ entry ∈ book.located, entry.2.it < book.nextNode

/-- A book as the operations keep it. -/
structure Valid (book : OrderBook Price) : Prop where
  nonempty : ∀ side, ∀ entry ∈ (book.levels side).entries, entry.2 ≠ []
  fillable : ∀ side, Fillable (book.levels side).entries
  indexes : Indexes book.orderIndex book.located
  addresses : (book.located.map fun entry => entry.2.it).Nodup
  allocated : ∀ entry ∈ book.located, entry.2.it < book.nextNode

theorem Valid.wired {book : OrderBook Price} (valid : book.Valid) : book.Wired where
  nonempty := valid.nonempty
  ownPrice side := (valid.fillable side).ownPrice
  indexes := valid.indexes
  addresses := valid.addresses
  allocated := valid.allocated

theorem Valid.empty : (empty : OrderBook Price).Valid where
  nonempty side := by cases side <;> exact fun _ member => nomatch member
  fillable side := by
    cases side <;>
      exact ⟨fun _ member => (nomatch member), fun _ member => (nomatch member)⟩
  indexes := .nil
  addresses := .nil
  allocated _ member := nomatch member

theorem Valid.positive {book : OrderBook Price} (valid : book.Valid) {side : BookSide}
    {node : RestingNode Price} (member : node ∈ book.nodes side) : 0 < node.order.quantity := by
  obtain ⟨entry, inEntries, inLevel⟩ := (SortedMap.mem_concat _ _).mp member
  exact (valid.fillable side).positive entry inEntries node inLevel

theorem Valid.resting_positive {book : OrderBook Price} (valid : book.Valid) :
    ∀ resting ∈ book.restingOrders, 0 < resting.quantity := by
  intro resting member
  rcases List.mem_append.mp member with inBids | inAsks
  · obtain ⟨node, inNodes, rfl⟩ := List.mem_map.mp inBids
    exact valid.positive inNodes
  · obtain ⟨node, inNodes, rfl⟩ := List.mem_map.mp inAsks
    exact valid.positive inNodes

/-- No order id rests twice. -/
theorem Valid.nodup_restingIds {book : OrderBook Price} (valid : book.Valid) :
    book.restingIds.Nodup := by
  rw [restingIds_eq]
  exact valid.indexes.distinct

/-- A wired book with positive quantities is valid. -/
theorem Wired.valid {book : OrderBook Price} (wired : book.Wired)
    (positive : ∀ side, ∀ node ∈ book.nodes side, 0 < node.order.quantity) : book.Valid where
  nonempty := wired.nonempty
  fillable side := ⟨fun entry inEntries node inLevel =>
    positive side node ((SortedMap.mem_concat _ _).mpr ⟨entry, inEntries, inLevel⟩),
    wired.ownPrice side⟩
  indexes := wired.indexes
  addresses := wired.addresses
  allocated := wired.allocated

theorem Wired.level {book : OrderBook Price} (wired : book.Wired) {side : BookSide}
    {node : RestingNode Price} (member : node ∈ book.nodes side) :
    ∃ level, (node.order.price, level) ∈ (book.levels side).entries ∧ node ∈ level := by
  obtain ⟨entry, inEntries, inLevel⟩ := (SortedMap.mem_concat _ _).mp member
  rw [wired.ownPrice side entry inEntries node inLevel]
  exact ⟨entry.2, inEntries, inLevel⟩

end Located

variable [PriceOperations Price]

/-! ### Matching -/

theorem matched_levels_self (book : OrderBook Price) (side : BookSide) (order : Order Price)
    (timestamp : Nat) : (book.matched side order timestamp).levels side = book.levels side := by
  cases side <;> rfl

theorem matched_nodes_self (book : OrderBook Price) (side : BookSide) (order : Order Price)
    (timestamp : Nat) : (book.matched side order timestamp).nodes side = book.nodes side := by
  rw [nodes, matched_levels_self, nodes]

theorem matched_entries (book : OrderBook Price) (side : BookSide) (order : Order Price)
    (timestamp : Nat) :
    ((book.matched side order timestamp).levels side.opposite).entries =
      (matchLevels side order timestamp (book.levels side.opposite).entries book.startMatch).1 := by
  cases side <;> rfl

/-- The nodes of a side split into those of the open levels and those of the shut ones. -/
theorem nodes_split (book : OrderBook Price) (side : BookSide) (order : Order Price) :
    book.nodes side.opposite =
      openNodes side order (book.levels side.opposite).entries ++
        (shutLevels side order (book.levels side.opposite).entries).flatMap Prod.snd :=
  (openNodes_append_shutLevels side order _).symm

theorem resting_split (book : OrderBook Price) (side : BookSide) (order : Order Price) :
    book.resting side.opposite =
      (openNodes side order (book.levels side.opposite).entries).map RestingNode.order ++
        ((shutLevels side order (book.levels side.opposite).entries).flatMap Prod.snd).map
          RestingNode.order := by
  rw [resting, nodes_split book side order, List.map_append]

theorem openNodes_positive {book : OrderBook Price} (valid : book.Valid) (side : BookSide)
    (order : Order Price) :
    Positive nodeQuantity (openNodes side order (book.levels side.opposite).entries) := by
  intro node member
  have inNodes : node ∈ book.nodes side.opposite := by
    rw [nodes_split book side order]
    exact List.mem_append_left _ member
  exact valid.positive inNodes

/-- The opposite side after matching: what the greedy fill leaves of the open levels, and the
shut levels. -/
theorem matched_nodes_opposite {book : OrderBook Price} (wired : book.Wired) (side : BookSide)
    (order : Order Price) (timestamp : Nat) :
    (book.matched side order timestamp).nodes side.opposite =
      leftover nodeQuantity reduceNode order.quantity
          (openNodes side order (book.levels side.opposite).entries) ++
        (shutLevels side order (book.levels side.opposite).entries).flatMap Prod.snd := by
  have loops := (matchLevels_eq side order timestamp (book.levels side.opposite).entries
    book.startMatch (wired.ownPrice side.opposite)).2
  rw [nodes, SortedMap.concat, matched_entries, loops]
  simp [startMatch]

theorem matched_resting_self (book : OrderBook Price) (side : BookSide) (order : Order Price)
    (timestamp : Nat) :
    (book.matched side order timestamp).resting side = book.resting side := by
  rw [resting, matched_nodes_self, resting]

theorem matched_resting_opposite {book : OrderBook Price} (wired : book.Wired) (side : BookSide)
    (order : Order Price) (timestamp : Nat) :
    (book.matched side order timestamp).resting side.opposite =
      leftover Order.quantity Order.reduceQuantity order.quantity
          ((openNodes side order (book.levels side.opposite).entries).map RestingNode.order) ++
        ((shutLevels side order (book.levels side.opposite).entries).flatMap Prod.snd).map
          RestingNode.order := by
  rw [resting, matched_nodes_opposite wired, List.map_append,
    leftover_map nodeQuantity reduceNode RestingNode.order (fun _ => rfl) (fun _ _ => rfl)]

theorem matched_orderIndex {book : OrderBook Price} (wired : book.Wired) (side : BookSide)
    (order : Order Price) (timestamp : Nat) :
    (book.matched side order timestamp).orderIndex = fun orderId =>
      if orderId ∈ (exhausted nodeQuantity order.quantity
          (openNodes side order (book.levels side.opposite).entries)).map RestingNode.orderId
      then none else book.orderIndex orderId := by
  have loops := (matchLevels_eq side order timestamp (book.levels side.opposite).entries
    book.startMatch (wired.ownPrice side.opposite)).1
  simp only [matched, loops, MatchState.fill]
  simp [startMatch]

theorem matched_nextNode (book : OrderBook Price) (side : BookSide) (order : Order Price)
    (timestamp : Nat) : (book.matched side order timestamp).nextNode = book.nextNode := by
  cases side <;> rfl

/-- Matching removes the exhausted nodes and moves none of the others. -/
theorem located_matched {book : OrderBook Price} (wired : book.Wired) (side : BookSide)
    (order : Order Price) (timestamp : Nat) :
    book.located.Perm
      ((exhausted nodeQuantity order.quantity
          (openNodes side order (book.levels side.opposite).entries)).map (locate side.opposite) ++
        (book.matched side order timestamp).located) := by
  have split := map_split nodeQuantity reduceNode (locate side.opposite) (fun _ _ => rfl)
    order.quantity
    (openNodes side order (book.levels side.opposite).entries)
  refine (book.located_perm side).trans (List.Perm.trans ?_
    (((book.matched side order timestamp).located_perm side).symm.append_left _))
  rw [matched_nodes_self, matched_nodes_opposite wired, nodes_split book side order,
    List.map_append, split,
    List.map_append]
  simp only [List.append_assoc]
  exact List.perm_append_comm_assoc _ _ _

theorem matched_subset {book : OrderBook Price} (wired : book.Wired) (side : BookSide)
    (order : Order Price) (timestamp : Nat) :
    ∀ entry ∈ (book.matched side order timestamp).located, entry ∈ book.located := fun _ member =>
  (located_matched wired side order timestamp).mem_iff.mpr (List.mem_append_right _ member)

theorem matched_restingIds {book : OrderBook Price} (wired : book.Wired) (side : BookSide)
    (order : Order Price) (timestamp : Nat) (orderId : String)
    (member : orderId ∈ (book.matched side order timestamp).restingIds) :
    orderId ∈ book.restingIds := by
  rw [restingIds_eq] at member ⊢
  obtain ⟨entry, inMatched, rfl⟩ := List.mem_map.mp member
  exact List.mem_map_of_mem (matched_subset wired side order timestamp entry inMatched)

theorem Wired.matched {book : OrderBook Price} (wired : book.Wired) (side : BookSide)
    (order : Order Price) (timestamp : Nat) : (book.matched side order timestamp).Wired := by
  have left : ∀ entry ∈ ((book.matched side order timestamp).levels side.opposite).entries,
      ∃ level wanted, (entry.1, level) ∈ (book.levels side.opposite).entries ∧
        entry.2 = leftover nodeQuantity reduceNode wanted level ∧
        (entry.2 ≠ [] ∨ entry ∈ (book.levels side.opposite).entries) := by
    intro entry member
    rw [matched_entries] at member
    exact matchLevels_entry side order timestamp _ _ (wired.ownPrice side.opposite) entry member
  have located := located_matched wired side order timestamp
  refine ⟨side.forall_of_opposite ?_ ?_, side.forall_of_opposite ?_ ?_, ?_, ?_, ?_⟩
  · rw [matched_levels_self]
    exact wired.nonempty side
  · intro entry member
    obtain ⟨level, wanted, inEntries, _, nonempty | unchanged⟩ := left entry member
    · exact nonempty
    · exact wired.nonempty side.opposite entry unchanged
  · rw [matched_levels_self]
    exact wired.ownPrice side
  · intro entry member node inLevel
    obtain ⟨level, wanted, inEntries, isLeft, _⟩ := left entry member
    have split := map_split nodeQuantity reduceNode (fun node => node.order.price)
      (fun _ _ => rfl) wanted level
    have priceMember : node.order.price ∈ level.map fun node => node.order.price := by
      rw [split, ← isLeft]
      exact List.mem_append_right _
        (List.mem_map_of_mem (f := fun node : RestingNode Price => node.order.price) inLevel)
    obtain ⟨original, inOriginal, samePrice⟩ := List.mem_map.mp priceMember
    rw [← samePrice]
    exact wired.ownPrice side.opposite _ inEntries original inOriginal
  · rw [matched_orderIndex wired]
    have dropped := (wired.indexes.perm located).drop
    simp only [List.map_map] at dropped
    exact dropped
  · have distinct := (located.map fun entry => entry.2.it).nodup_iff.mp wired.addresses
    rw [List.map_append] at distinct
    exact distinct.of_append_right
  · intro entry member
    rw [matched_nextNode]
    exact wired.allocated entry (located.mem_iff.mpr (List.mem_append_right _ member))

theorem Valid.matched {book : OrderBook Price} (valid : book.Valid) (side : BookSide)
    (order : Order Price) (timestamp : Nat) : (book.matched side order timestamp).Valid := by
  refine (valid.wired.matched side order timestamp).valid (side.forall_of_opposite ?_ ?_)
  · rw [matched_nodes_self]
    exact fun node member => valid.positive member
  · rw [matched_nodes_opposite valid.wired]
    intro node member
    rcases List.mem_append.mp member with isLeft | isShut
    · exact leftover_positive nodeQuantity_reduceNode (openNodes_positive valid side order) node
        isLeft
    · have inNodes : node ∈ book.nodes side.opposite := by
        rw [nodes_split book side order]
        exact List.mem_append_right _ isShut
      exact valid.positive inNodes

/-! ### Resting -/

theorem rest_levels_self (book : OrderBook Price) (side : BookSide) (order : Order Price) :
    (book.rest side order).levels side =
      (book.levels side).upsert order.price [] (· ++ [⟨book.nextNode, order⟩]) := by
  cases side <;> rfl

theorem rest_levels_opposite (book : OrderBook Price) (side : BookSide) (order : Order Price) :
    (book.rest side order).levels side.opposite = book.levels side.opposite := by
  cases side <;> rfl

theorem rest_orderIndex (book : OrderBook Price) (side : BookSide) (order : Order Price) :
    (book.rest side order).orderIndex = Function.update book.orderIndex order.orderId
      (some ⟨side.tag, order.price, book.nextNode⟩) := rfl

theorem rest_nextNode (book : OrderBook Price) (side : BookSide) (order : Order Price) :
    (book.rest side order).nextNode = book.nextNode + 1 := rfl

theorem rest_nodes_self (book : OrderBook Price) (side : BookSide) (order : Order Price) :
    ((book.rest side order).nodes side).Perm (⟨book.nextNode, order⟩ :: book.nodes side) := by
  rw [nodes, rest_levels_self]
  exact SortedMap.concat_upsert_append _ _ _

theorem rest_nodes_opposite (book : OrderBook Price) (side : BookSide) (order : Order Price) :
    (book.rest side order).nodes side.opposite = book.nodes side.opposite := by
  rw [nodes, rest_levels_opposite, nodes]

theorem rest_restingOrders (book : OrderBook Price) (side : BookSide) (order : Order Price) :
    (book.rest side order).restingOrders.Perm (order :: book.restingOrders) := by
  refine ((book.rest side order).restingOrders_perm side).trans ?_
  rw [resting, resting, rest_nodes_opposite]
  refine (((rest_nodes_self book side order).map RestingNode.order).append_right _).trans ?_
  exact (book.restingOrders_perm side).symm.cons _

/-- Resting adds the order's entry and moves no other node. -/
theorem located_rest (book : OrderBook Price) (side : BookSide) (order : Order Price) :
    (book.rest side order).located.Perm
      (locate side ⟨book.nextNode, order⟩ :: book.located) := by
  refine ((book.rest side order).located_perm side).trans ?_
  rw [rest_nodes_opposite]
  refine (((rest_nodes_self book side order).map (locate side)).append_right _).trans ?_
  exact ((book.located_perm side).symm.cons _)

/-- The price of an order finds its own level, or a place for one, when it compares with the price
of every order that rests on the side. -/
theorem Wired.places {book : OrderBook Price} (wired : book.Wired) {side : BookSide}
    {price : Price} (compares : ∀ resting ∈ book.resting side, Compares resting.price price) :
    SortedMap.Places side.before (book.levels side).entries price := by
  intro entry member
  obtain ⟨node, inLevel⟩ := List.exists_mem_of_ne_nil _ (wired.nonempty side entry member)
  have inResting : node.order ∈ book.resting side :=
    List.mem_map_of_mem ((SortedMap.mem_concat _ _).mpr ⟨entry, member, inLevel⟩)
  rw [← side.compares_iff, ← wired.ownPrice side entry member node inLevel]
  exact compares node.order inResting

theorem Wired.rest {book : OrderBook Price} (wired : book.Wired) (side : BookSide)
    (order : Order Price) (fresh : order.orderId ∉ book.located.map Prod.fst)
    (compares : ∀ resting ∈ book.resting side, Compares resting.price order.price) :
    (book.rest side order).Wired := by
  have places := wired.places compares
  have located := located_rest book side order
  have own : ∀ entry ∈ ((book.rest side order).levels side).entries,
      (entry ∈ (book.levels side).entries ∧ entry.1 ≠ order.price) ∨
        entry = (order.price,
          ((book.levels side).find order.price).getD [] ++ [⟨book.nextNode, order⟩]) := by
    intro entry member
    rw [rest_levels_self] at member
    exact (SortedMap.mem_upsert _ places _ _ _).mp member
  have old : ∀ node ∈ ((book.levels side).find order.price).getD [],
      node.order.price = order.price := by
    intro node member
    cases found : (book.levels side).find order.price with
    | none =>
      rw [found] at member
      cases member
    | some level =>
      rw [found, Option.getD_some] at member
      have inEntries := ((book.levels side).find_eq_some_iff places _).mp found
      exact wired.ownPrice side _ inEntries node member
  refine ⟨side.forall_of_opposite ?_ ?_, side.forall_of_opposite ?_ ?_, ?_, ?_, ?_⟩
  · intro entry member
    rcases own entry member with ⟨unchanged, _⟩ | rfl
    · exact wired.nonempty side entry unchanged
    · simp
  · rw [rest_levels_opposite]
    exact wired.nonempty side.opposite
  · intro entry member
    rcases own entry member with ⟨unchanged, _⟩ | rfl
    · exact wired.ownPrice side entry unchanged
    · intro node inLevel
      rcases List.mem_append.mp inLevel with isOld | isNew
      · exact old node isOld
      · rw [List.mem_singleton.mp isNew]
  · rw [rest_levels_opposite]
    exact wired.ownPrice side.opposite
  · rw [rest_orderIndex]
    exact (wired.indexes.add _ _ fresh).perm located.symm
  · refine (located.map fun entry => entry.2.it).nodup_iff.mpr ?_
    rw [List.map_cons, List.nodup_cons]
    refine ⟨fun member => ?_, wired.addresses⟩
    obtain ⟨entry, inLocated, same⟩ := List.mem_map.mp member
    have less := wired.allocated entry inLocated
    rw [same] at less
    exact lt_irrefl _ less
  · intro entry member
    rw [rest_nextNode]
    rcases List.mem_cons.mp (located.mem_iff.mp member) with rfl | isOld
    · exact Nat.lt_succ_self _
    · exact Nat.lt_succ_of_lt (wired.allocated entry isOld)

/-- An order that rests at its own price compares with every order on its side. -/
theorem Wired.compares_of_rest {book : OrderBook Price} (wired : book.Wired) {side : BookSide}
    {order : Order Price}
    (own : OwnPrices ((book.rest side order).levels side).entries) :
    ∀ resting ∈ book.resting side, Compares resting.price order.price := by
  rw [rest_levels_self] at own
  have places := (book.levels side).places_of_upsert fun entry member inLevel =>
    (own entry member _ inLevel).symm
  intro resting member
  obtain ⟨node, inNodes, rfl⟩ := List.mem_map.mp member
  obtain ⟨level, inEntries, _⟩ := wired.level inNodes
  exact (side.compares_iff _ _).mpr (places _ inEntries)

theorem Valid.rest {book : OrderBook Price} (valid : book.Valid) (side : BookSide)
    (order : Order Price) (fresh : order.orderId ∉ book.located.map Prod.fst)
    (compares : ∀ resting ∈ book.resting side, Compares resting.price order.price)
    (positive : 0 < order.quantity) : (book.rest side order).Valid := by
  refine (valid.wired.rest side order fresh compares).valid (side.forall_of_opposite ?_ ?_)
  · intro node member
    rcases List.mem_cons.mp ((rest_nodes_self book side order).mem_iff.mp member) with rfl | isOld
    · exact positive
    · exact valid.positive isOld
  · rw [rest_nodes_opposite]
    exact fun node member => valid.positive member

/-! ### Submitting -/

/-- Whether an order with a filled quantity goes on to rest. -/
def Rests (order : Order Price) (filledQty : Int) : Prop :=
  order.orderType ≠ .market ∧ filledQty ≠ order.quantity

instance (order : Order Price) (filledQty : Int) : Decidable (Rests order filledQty) :=
  inferInstanceAs (Decidable (_ ∧ _))

theorem conclude_book (book : OrderBook Price) (side : BookSide) (order : Order Price)
    (timestamp : Nat) (state : MatchState Price) :
    (book.conclude side order timestamp state).book =
      if Rests order state.filledQty then book.rest side (order.reduceQuantity state.filledQty)
      else book := by
  unfold conclude Rests
  by_cases market : order.orderType = .market
  · simp [market]
  · by_cases full : state.filledQty = order.quantity
    · simp [market, full]
    · simp [market, full]

/-- The quantity an order submitted to a side fills. -/
def filledBy (book : OrderBook Price) (side : BookSide) (order : Order Price) : Int :=
  total nodeQuantity order.quantity (openNodes side order (book.levels side.opposite).entries)

theorem startMatch_fill (book : OrderBook Price) (side : BookSide) (order : Order Price)
    (timestamp : Nat) :
    (book.startMatch.fill order timestamp
      (openNodes side order (book.levels side.opposite).entries)).filledQty =
        book.filledBy side order := by
  simp [MatchState.fill, startMatch, filledBy]

theorem submitTo_book {book : OrderBook Price} (wired : book.Wired) (side : BookSide)
    (order : Order Price) (timestamp : Nat) :
    (book.submitTo side order timestamp).book =
      if Rests order (book.filledBy side order) then
        (book.matched side order timestamp).rest side
          (order.reduceQuantity (book.filledBy side order))
      else book.matched side order timestamp := by
  have loops := (matchLevels_eq side order timestamp (book.levels side.opposite).entries
    book.startMatch (wired.ownPrice side.opposite)).1
  rw [submitTo, conclude_book, loops, startMatch_fill]

theorem filledBy_nonneg {book : OrderBook Price} (valid : book.Valid) (side : BookSide)
    (order : Order Price) : 0 ≤ book.filledBy side order :=
  total_nonneg _ (openNodes_positive valid side order)

theorem filledBy_le (book : OrderBook Price) (side : BookSide) (order : Order Price)
    (nonneg : 0 ≤ order.quantity) : book.filledBy side order ≤ order.quantity :=
  total_le _ nonneg _

theorem filledBy_of_nonpos (book : OrderBook Price) (side : BookSide) (order : Order Price)
    (nonpos : order.quantity ≤ 0) : book.filledBy side order = 0 :=
  total_of_nonpos nonpos _

theorem filledBy_le_max (book : OrderBook Price) (side : BookSide) (order : Order Price) :
    book.filledBy side order ≤ max order.quantity 0 := by
  rcases le_total order.quantity 0 with nonpos | nonneg
  · rw [filledBy_of_nonpos book side order nonpos]
    exact le_max_right _ _
  · exact (filledBy_le book side order nonneg).trans (le_max_left _ _)

theorem located_matched_fresh {book : OrderBook Price} (wired : book.Wired) (side : BookSide)
    (order : Order Price) (timestamp : Nat) {orderId : String}
    (fresh : orderId ∉ book.located.map Prod.fst) :
    orderId ∉ (book.matched side order timestamp).located.map Prod.fst := by
  intro member
  refine fresh ?_
  have located := (located_matched wired side order timestamp).map Prod.fst
  rw [List.map_append] at located
  exact located.mem_iff.mpr (List.mem_append_right _ member)

/-- A submit of an order with a fresh id keeps the book wired. -/
theorem Wired.submitTo {book : OrderBook Price} (wired : book.Wired) (side : BookSide)
    (order : Order Price) (timestamp : Nat) (fresh : order.orderId ∉ book.located.map Prod.fst)
    (compares : Rests order (book.filledBy side order) →
      ∀ resting ∈ book.resting side, Compares resting.price order.price) :
    (book.submitTo side order timestamp).book.Wired := by
  rw [submitTo_book wired]
  split_ifs with rests
  · refine (wired.matched side order timestamp).rest side _
      (located_matched_fresh wired side order timestamp fresh) ?_
    rw [matched_resting_self]
    exact compares rests
  · exact wired.matched side order timestamp

/-- A submit of an order with a fresh id keeps the book valid when what rests, if anything
rests, has a positive quantity. -/
theorem Valid.submitTo {book : OrderBook Price} (valid : book.Valid) (side : BookSide)
    (order : Order Price) (timestamp : Nat) (fresh : order.orderId ∉ book.located.map Prod.fst)
    (compares : Rests order (book.filledBy side order) →
      ∀ resting ∈ book.resting side, Compares resting.price order.price)
    (remainder : Rests order (book.filledBy side order) →
      book.filledBy side order < order.quantity) :
    (book.submitTo side order timestamp).book.Valid := by
  rw [submitTo_book valid.wired]
  split_ifs with rests
  · refine (valid.matched side order timestamp).rest side _ ?_ ?_ ?_
    · exact located_matched_fresh valid.wired side order timestamp fresh
    · rw [matched_resting_self]
      exact compares rests
    · rw [Order.reduceQuantity_quantity]
      have less := remainder rests
      omega
  · exact valid.matched side order timestamp

theorem remainder_of_nonneg (book : OrderBook Price) (side : BookSide) (order : Order Price)
    (nonneg : 0 ≤ order.quantity) (rests : Rests order (book.filledBy side order)) :
    book.filledBy side order < order.quantity :=
  lt_of_le_of_ne (filledBy_le book side order nonneg) rests.2

/-! ### Cancelling -/

/-- What cancelling an indexed order erases: its node, from its side. -/
structure Erased (book : OrderBook Price) (side : BookSide) (node : RestingNode Price)
    (after : OrderBook Price) : Prop where
  entries : ∀ entry ∈ (after.levels side).entries, entry.2 ≠ [] ∧
    ∃ level, (entry.1, level) ∈ (book.levels side).entries ∧
      ∀ other ∈ entry.2, other ∈ level
  nodes : after.nodes side = (book.nodes side).filter fun other => other.address ≠ node.address
  opposite : after.levels side.opposite = book.levels side.opposite
  orderIndex : after.orderIndex = book.orderIndex
  nextNode : after.nextNode = book.nextNode
  tradeCounter : after.tradeCounter = book.tradeCounter

theorem Erased.nodes_opposite {book after : OrderBook Price} {side : BookSide}
    {node : RestingNode Price} (erased : Erased book side node after) :
    after.nodes side.opposite = book.nodes side.opposite := by
  rw [OrderBook.nodes, erased.opposite, OrderBook.nodes]

theorem addresses_nodup {book : OrderBook Price} (wired : book.Wired) (side : BookSide) :
    ((book.nodes side).map RestingNode.address).Nodup := by
  have distinct := ((book.located_perm side).map fun entry => entry.2.it).nodup_iff.mp
    wired.addresses
  rw [List.map_append, List.map_map] at distinct
  exact distinct.of_append_left

/-- Nodes with the same address are the same node. -/
theorem node_unique {book : OrderBook Price} (wired : book.Wired) {side : BookSide}
    {first second : RestingNode Price} (memberFirst : first ∈ book.nodes side)
    (memberSecond : second ∈ book.nodes side) (same : first.address = second.address) :
    first = second :=
  List.inj_on_of_nodup_map (addresses_nodup wired side) memberFirst memberSecond same

/-- Erasing an indexed order is defined and erases exactly its node. -/
theorem eraseResting_defined {book : OrderBook Price} (wired : book.Wired) {side : BookSide}
    {node : RestingNode Price} (member : node ∈ book.nodes side) :
    ∃ after, book.eraseResting side (locate side node).2 = some after ∧
      Erased book side node after := by
  obtain ⟨level, inEntries, inLevel⟩ := wired.level member
  have places : SortedMap.Places side.before (book.levels side).entries
      (locate side node).2.price := (book.levels side).places_of_mem inEntries
  have found : (book.levels side).find (locate side node).2.price = some level :=
    ((book.levels side).find_eq_some_iff places _).mpr inEntries
  have present : level.any fun other => other.address = (locate side node).2.it :=
    List.any_eq_true.mpr ⟨node, inLevel, by simp [locate]⟩
  have others : ∀ entry ∈ (book.levels side).entries, entry.1 ≠ (locate side node).2.price →
      ∀ other ∈ entry.2, decide (other.address ≠ (locate side node).2.it) = true := by
    intro entry inBook different other inOther
    refine decide_eq_true fun same => different ?_
    have inNodes : other ∈ book.nodes side :=
      (SortedMap.mem_concat _ _).mpr ⟨entry, inBook, inOther⟩
    rw [← wired.ownPrice side entry inBook other inOther,
      node_unique wired inNodes member same]
    rfl
  have kept : ∀ other ∈ level.filter (fun other => other.address ≠ (locate side node).2.it),
      other ∈ level := fun other inFiltered => List.mem_of_mem_filter inFiltered
  by_cases emptied : (level.filter fun other => other.address ≠ (locate side node).2.it) = []
  · refine ⟨book.setLevels side ((book.levels side).erase (locate side node).2.price), ?_, ?_⟩
    · simp only [eraseResting, found, eraseNode, present, if_true, Option.bind_eq_bind,
        Option.bind_some, emptied, List.isEmpty_nil]
    · refine ⟨?_, ?_, by simp, by simp, by simp, by cases side <;> rfl⟩
      · intro entry inErased
        rw [levels_setLevels, SortedMap.mem_erase _ places] at inErased
        exact ⟨wired.nonempty side entry inErased.1, entry.2, inErased.1, fun _ same => same⟩
      · rw [nodes, levels_setLevels]
        exact SortedMap.concat_erase_filter _ inEntries emptied others
  · refine ⟨book.setLevels side ((book.levels side).set (locate side node).2.price
      (level.filter fun other => other.address ≠ (locate side node).2.it)), ?_, ?_⟩
    · have notEmpty : (level.filter fun other =>
          other.address ≠ (locate side node).2.it).isEmpty = false :=
        List.isEmpty_eq_false_iff.mpr emptied
      simp only [eraseResting, found, eraseNode, present, if_true, Option.bind_eq_bind,
        Option.bind_some, notEmpty, Bool.false_eq_true, if_false]
    · refine ⟨?_, ?_, by simp, by simp, by simp, by cases side <;> rfl⟩
      · intro entry inSet
        rw [levels_setLevels, SortedMap.mem_set _ places] at inSet
        rcases inSet with ⟨rfl, old, _⟩ | ⟨unchanged, _⟩
        · exact ⟨emptied, level, inEntries, kept⟩
        · exact ⟨wired.nonempty side entry unchanged, entry.2, unchanged, fun _ same => same⟩
      · rw [nodes, levels_setLevels]
        exact SortedMap.concat_set_filter _ inEntries others

theorem erased_restingOrders {book after : OrderBook Price} (wired : book.Wired)
    {side : BookSide} {node : RestingNode Price} (member : node ∈ book.nodes side)
    (erased : Erased book side node after) :
    book.restingOrders.Perm (node.order :: after.restingOrders) := by
  refine (book.restingOrders_perm side).trans (List.Perm.trans ?_
    ((after.restingOrders_perm side).symm.cons _))
  rw [resting, resting, resting, resting, erased.nodes_opposite, erased.nodes,
    ← List.cons_append, ← List.map_cons]
  exact ((List.perm_cons_filter_tag (addresses_nodup wired side) member).map _).append_right _

/-- Erasing a node removes exactly its entry. -/
theorem located_erased {book after : OrderBook Price} (wired : book.Wired) {side : BookSide}
    {node : RestingNode Price} (member : node ∈ book.nodes side)
    (erased : Erased book side node after) :
    book.located.Perm (locate side node :: after.located) := by
  refine (book.located_perm side).trans (List.Perm.trans ?_
    ((after.located_perm side).symm.cons _))
  rw [erased.nodes_opposite, erased.nodes, ← List.cons_append, ← List.map_cons]
  exact ((List.perm_cons_filter_tag (addresses_nodup wired side) member).map _).append_right _

theorem Wired.erased {book after : OrderBook Price} (wired : book.Wired) {side : BookSide}
    {node : RestingNode Price} (member : node ∈ book.nodes side)
    (erased : Erased book side node after) :
    ({ after with orderIndex := Function.update after.orderIndex node.order.orderId none } :
      OrderBook Price).Wired := by
  have located := located_erased wired member erased
  have levels : ∀ other, ({ after with
      orderIndex := Function.update after.orderIndex node.order.orderId none } :
      OrderBook Price).levels other = after.levels other := by
    intro other
    cases other <;> rfl
  refine ⟨side.forall_of_opposite ?_ ?_, side.forall_of_opposite ?_ ?_, ?_, ?_, ?_⟩
  · rw [levels]
    exact fun entry inEntries => (erased.entries entry inEntries).1
  · rw [levels, erased.opposite]
    exact wired.nonempty side.opposite
  · rw [levels]
    intro entry inEntries
    obtain ⟨_, level, inBook, kept⟩ := erased.entries entry inEntries
    exact fun other inOther => wired.ownPrice side _ inBook other (kept other inOther)
  · rw [levels, erased.opposite]
    exact wired.ownPrice side.opposite
  · rw [erased.orderIndex]
    exact (wired.indexes.perm located).remove
  · have distinct := (located.map fun entry => entry.2.it).nodup_iff.mp wired.addresses
    exact distinct.of_cons
  · intro entry inLocated
    show entry.2.it < after.nextNode
    rw [erased.nextNode]
    exact wired.allocated entry (located.mem_iff.mpr (List.mem_cons_of_mem _ inLocated))

theorem Valid.erased {book after : OrderBook Price} (valid : book.Valid) {side : BookSide}
    {node : RestingNode Price} (member : node ∈ book.nodes side)
    (erased : Erased book side node after) :
    ({ after with orderIndex := Function.update after.orderIndex node.order.orderId none } :
      OrderBook Price).Valid := by
  refine (valid.wired.erased member erased).valid (side.forall_of_opposite ?_ ?_)
  · intro other inAfter
    have inErased : other ∈ after.nodes side := by
      cases side <;> exact inAfter
    rw [erased.nodes] at inErased
    exact valid.positive (List.mem_of_mem_filter inErased)
  · intro other inAfter
    have inErased : other ∈ after.nodes side.opposite := by
      cases side <;> exact inAfter
    rw [erased.nodes_opposite] at inErased
    exact valid.positive inErased

/-- What a cancel of a resting order does. -/
theorem cancel_resting {book : OrderBook Price} (wired : book.Wired) {side : BookSide}
    {node : RestingNode Price} (member : node ∈ book.nodes side) (timestamp : Nat) :
    ∃ after, Erased book side node after ∧
      book.cancel node.order.orderId timestamp =
        let final : OrderBook Price :=
          { after with orderIndex := Function.update after.orderIndex node.order.orderId none }
        some ⟨final, { (EngineResult.initial timestamp node.order.orderId : EngineResult Price) with
          cancelSuccessful := true }, [.topOfBook (final.currentTopOfBook timestamp)]⟩ := by
  obtain ⟨after, defined, erased⟩ := eraseResting_defined wired member
  have indexed : book.orderIndex node.order.orderId = some (locate side node).2 :=
    (wired.indexes.lookup _ _).mpr ((book.mem_located _).mpr ⟨side, node, member, rfl⟩)
  have sameSide : BookSide.ofOrder (locate side node).2.side = side := BookSide.ofOrder_tag side
  refine ⟨after, erased, ?_⟩
  simp only [cancel, indexed, sameSide, defined, Option.bind_eq_bind, Option.bind_some]

/-- What a cancel of any other id does. -/
theorem cancel_missing {book : OrderBook Price} (wired : book.Wired) (orderId : String)
    (timestamp : Nat) (missing : orderId ∉ book.located.map Prod.fst) :
    book.cancel orderId timestamp =
      some ⟨book, { (EngineResult.initial timestamp orderId : EngineResult Price) with
        rejectionReason := "order not found: " ++ orderId }, []⟩ := by
  simp only [cancel, (wired.indexes.lookup_none orderId).mpr missing]

/-- Every id is that of a resting order or missing. -/
theorem resting_or_missing (book : OrderBook Price) (orderId : String) :
    (∃ side, ∃ node ∈ book.nodes side, node.order.orderId = orderId) ∨
      orderId ∉ book.located.map Prod.fst := by
  by_cases member : orderId ∈ book.located.map Prod.fst
  · obtain ⟨entry, inLocated, rfl⟩ := List.mem_map.mp member
    obtain ⟨side, node, inNodes, rfl⟩ := (book.mem_located entry).mp inLocated
    exact .inl ⟨side, node, inNodes, rfl⟩
  · exact .inr member

theorem Valid.cancel {book : OrderBook Price} (valid : book.Valid) (orderId : String)
    (timestamp : Nat) :
    ∃ outcome, book.cancel orderId timestamp = some outcome ∧ outcome.book.Valid := by
  rcases book.resting_or_missing orderId with ⟨side, node, member, rfl⟩ | missing
  · obtain ⟨after, erased, outcome⟩ := cancel_resting valid.wired member timestamp
    exact ⟨_, outcome, valid.erased member erased⟩
  · exact ⟨_, cancel_missing valid.wired orderId timestamp missing, valid⟩

end OrderBook

end MarketSandbox
