/-
This file proves how trades draw the gateway's map down. The true quantities
resting under ids go down by what the trades name; if the map held exactly the
true quantities before, it does after, and if it held at least those, it does
after. An entry is forgotten only when nothing truly remains under its id, so
an id that is in the map is attributed by every trade of a batch.
-/

import MarketSandbox.Gateway.Delivery

namespace MarketSandbox

variable {Price : Type}

/-! ### True quantities -/

/-- The quantities under ids after a trade. -/
def afterTrade (truth : String → Int) (trade : Trade Price) (orderId : String) : Int :=
  truth orderId - if trade.restingOrderId = orderId then trade.quantity else 0

/-- The quantities under ids after trades. -/
def afterTrades (truth : String → Int) (trades : List (Trade Price)) (orderId : String) : Int :=
  truth orderId - tradedAs Trade.restingOrderId trades orderId

theorem afterTrades_nil (truth : String → Int) :
    afterTrades truth ([] : List (Trade Price)) = truth := by
  funext orderId
  simp [afterTrades, tradedAs]

theorem afterTrades_cons (truth : String → Int) (trade : Trade Price)
    (rest : List (Trade Price)) :
    afterTrades truth (trade :: rest) = afterTrades (afterTrade truth trade) rest := by
  funext orderId
  rw [afterTrades, tradedAs_cons, afterTrades, afterTrade]
  omega

/-- Positive trades that name no id for more than there is under it. -/
structure Affordable (truth : String → Int) (trades : List (Trade Price)) : Prop where
  positive : ∀ trade ∈ trades, 0 < trade.quantity
  covered : ∀ orderId, tradedAs Trade.restingOrderId trades orderId ≤ truth orderId
  safe : ∀ orderId, truth orderId < 2 ^ 53

namespace Affordable

variable {truth : String → Int} {trade : Trade Price} {rest : List (Trade Price)}

theorem tail (affordable : Affordable truth (trade :: rest)) :
    Affordable (afterTrade truth trade) rest where
  positive other member := affordable.positive other (List.mem_cons_of_mem _ member)
  covered orderId := by
    have covered := affordable.covered orderId
    rw [tradedAs_cons] at covered
    rw [afterTrade]
    omega
  safe orderId := by
    have safe := affordable.safe orderId
    have positive := affordable.positive trade List.mem_cons_self
    rw [afterTrade]
    split_ifs <;> omega

theorem head_le (affordable : Affordable truth (trade :: rest)) :
    trade.quantity ≤ truth trade.restingOrderId := by
  have covered := affordable.covered trade.restingOrderId
  have others := tradedAs_nonneg (fun other member =>
    affordable.positive other (List.mem_cons_of_mem trade member)) trade.restingOrderId
  rw [tradedAs_cons, if_pos rfl] at covered
  omega

/-- The quantity of the first trade reaches the gateway unrounded. -/
theorem head_decoded [PriceArithmetic Price] (affordable : Affordable truth (trade :: rest)) :
    num trade.decode.quantity = trade.quantity := by
  rw [show trade.decode.quantity = presentNumber trade.quantity from rfl, num_presentNumber]
  exact SafeInteger.toNumber_of_nonneg (affordable.positive trade List.mem_cons_self).le
    (affordable.head_le.trans_lt (affordable.safe _))

end Affordable

/-! ### Taking a traded quantity -/

theorem RestingMap.get_take (resting : RestingMap) (restingId : String) (quantity : Int)
    (orderId : String) :
    (RestingMap.take resting restingId quantity).get orderId =
      if orderId = restingId then (resting.get restingId).bind fun entry =>
        if SafeInteger.sub entry.remaining quantity ≤ 0 then none
        else some { entry with remaining := SafeInteger.sub entry.remaining quantity }
      else resting.get orderId := by
  unfold RestingMap.take
  cases found : resting.get restingId with
  | none =>
    by_cases same : orderId = restingId
    · rw [if_pos same, same, found]
      rfl
    · rw [if_neg same]
  | some entry =>
    by_cases nothing : SafeInteger.sub entry.remaining quantity ≤ 0
    · simp only [if_pos nothing, InsertionMap.get_delete, InsertionMap.get_set,
        Function.update_apply, Option.bind_some]
      split_ifs <;> rfl
    · simp only [if_neg nothing, InsertionMap.get_set, Function.update_apply, Option.bind_some]

/-- The map holds exactly the ids with a positive quantity, with their owners and quantities. -/
def TracksExactly (owner : String → String → Prop) (truth : String → Int) (resting : RestingMap) :
    Prop :=
  ∀ orderId entry, resting.get orderId = some entry ↔
    0 < truth orderId ∧ entry.remaining = truth orderId ∧ owner orderId entry.node

/-- The map names true owners, and never less than the true quantities. -/
def OverEstimates (owner : String → String → Prop) (truth : String → Int) (resting : RestingMap) :
    Prop :=
  ∀ orderId entry, resting.get orderId = some entry →
    owner orderId entry.node ∧ truth orderId ≤ entry.remaining ∧ entry.remaining < 2 ^ 53

variable {owner : String → String → Prop} {truth : String → Int} {resting : RestingMap}

theorem TracksExactly.take (exactly : TracksExactly owner truth resting) {trade : Trade Price}
    (positive : 0 < trade.quantity) (covered : trade.quantity ≤ truth trade.restingOrderId)
    (safe : truth trade.restingOrderId < 2 ^ 53) :
    TracksExactly owner (afterTrade truth trade)
      (RestingMap.take resting trade.restingOrderId trade.quantity) := by
  intro orderId entry
  rw [RestingMap.get_take, afterTrade]
  by_cases same : orderId = trade.restingOrderId
  · subst same
    rw [if_pos rfl, if_pos rfl, Option.bind_eq_some_iff]
    have unrounded : SafeInteger.sub (truth trade.restingOrderId) trade.quantity =
        truth trade.restingOrderId - trade.quantity :=
      SafeInteger.toNumber_of_nonneg (by omega) (by omega)
    constructor
    · rintro ⟨old, found, kept⟩
      obtain ⟨_, remaining, isOwner⟩ := (exactly _ _).mp found
      rw [remaining, unrounded] at kept
      split_ifs at kept with nothing
      obtain rfl := Option.some.inj kept
      exact ⟨by omega, rfl, isOwner⟩
    · rintro ⟨left, remaining, isOwner⟩
      refine ⟨⟨entry.node, truth trade.restingOrderId⟩,
        (exactly _ _).mpr ⟨by omega, rfl, isOwner⟩, ?_⟩
      rw [unrounded, if_neg (by omega), ← remaining]
  · rw [if_neg same, if_neg fun named => same named.symm, sub_zero]
    exact exactly orderId entry

theorem OverEstimates.take (above : OverEstimates owner truth resting) {trade : Trade Price}
    (positive : 0 < trade.quantity) (covered : trade.quantity ≤ truth trade.restingOrderId) :
    OverEstimates owner (afterTrade truth trade)
      (RestingMap.take resting trade.restingOrderId trade.quantity) := by
  intro orderId entry found
  rw [RestingMap.get_take] at found
  rw [afterTrade]
  by_cases same : orderId = trade.restingOrderId
  · subst same
    rw [if_pos rfl, Option.bind_eq_some_iff] at found
    obtain ⟨old, wasFound, kept⟩ := found
    obtain ⟨isOwner, atLeast, safe⟩ := above _ _ wasFound
    have unrounded : SafeInteger.sub old.remaining trade.quantity =
        old.remaining - trade.quantity :=
      SafeInteger.toNumber_of_nonneg (by omega) (by omega)
    rw [unrounded] at kept
    split_ifs at kept with nothing
    obtain rfl := Option.some.inj kept
    rw [if_pos rfl]
    exact ⟨isOwner, by simp only; omega, by simp only; omega⟩
  · rw [if_neg same] at found
    rw [if_neg fun named => same named.symm, sub_zero]
    exact above orderId entry found

/-- An entry stays while something truly remains under its id. -/
theorem OverEstimates.take_keeps (above : OverEstimates owner truth resting) {trade : Trade Price}
    (positive : 0 < trade.quantity) (covered : trade.quantity ≤ truth trade.restingOrderId)
    {orderId : String} (remains : 0 < afterTrade truth trade orderId)
    (held : (resting.get orderId).isSome) :
    ((RestingMap.take resting trade.restingOrderId trade.quantity).get orderId).isSome := by
  rw [RestingMap.get_take]
  rw [afterTrade] at remains
  by_cases same : orderId = trade.restingOrderId
  · subst same
    obtain ⟨entry, found⟩ := Option.isSome_iff_exists.mp held
    obtain ⟨_, atLeast, safe⟩ := above _ _ found
    have unrounded : SafeInteger.sub entry.remaining trade.quantity =
        entry.remaining - trade.quantity :=
      SafeInteger.toNumber_of_nonneg (by omega) (by omega)
    rw [if_pos rfl] at remains
    rw [if_pos rfl, found, Option.bind_some, unrounded, if_neg (by omega)]
    rfl
  · rwa [if_neg same]

/-! ### The trades of a batch -/

section Trades

variable [PriceArithmetic Price]

theorem normalizeTrades_cons (node : String) (trade : Trade Price) (rest : List (Trade Price))
    (resting : RestingMap) {truth : String → Int}
    (affordable : Affordable truth (trade :: rest)) :
    ∃ wire : WireTrade Price, wire.resting = trade.restingOrderId ∧
      wire.restingNode = RestingMap.attribute resting trade.restingOrderId ∧
      RestingMap.normalizeTrades node ((trade :: rest).map Trade.decode) resting =
        let later := RestingMap.normalizeTrades node (rest.map Trade.decode)
          (RestingMap.take resting trade.restingOrderId trade.quantity)
        (wire :: later.1, later.2) := by
  have restingId : trade.decode.restingOrderId.getD "" = trade.restingOrderId := getD_present _ _
  have quantity := affordable.head_decoded
  rw [List.map_cons, RestingMap.normalizeTrades]
  simp only [restingId, quantity]
  exact ⟨_, rfl, rfl, rfl⟩

theorem normalizeTrades_named (node : String) (trades : List (Trade Price)) (resting : RestingMap) :
    ∀ wire ∈ (RestingMap.normalizeTrades node (trades.map Trade.decode) resting).1,
      ∃ trade ∈ trades, trade.restingOrderId = wire.resting := by
  induction trades generalizing resting with
  | nil => exact fun _ member => nomatch member
  | cons trade rest inductionHypothesis =>
    intro wire member
    rw [List.map_cons, RestingMap.normalizeTrades] at member
    rcases List.mem_cons.mp member with rfl | later
    · exact ⟨trade, List.mem_cons_self, (getD_present _ _).symm⟩
    · obtain ⟨other, inRest, sameId⟩ := inductionHypothesis _ wire later
      exact ⟨other, List.mem_cons_of_mem _ inRest, sameId⟩

theorem TracksExactly.normalizeTrades (node : String) {trades : List (Trade Price)}
    (affordable : Affordable truth trades)
    (owned : ∀ orderId, 0 < truth orderId → ∃ node, owner orderId node)
    (exactly : TracksExactly owner truth resting) :
    let result := RestingMap.normalizeTrades node (trades.map Trade.decode) resting
    TracksExactly owner (afterTrades truth trades) result.2 ∧
      ∀ wire ∈ result.1, owner wire.resting wire.restingNode := by
  induction trades generalizing truth resting with
  | nil =>
    rw [afterTrades_nil]
    exact ⟨exactly, fun _ member => nomatch member⟩
  | cons trade rest inductionHypothesis =>
    have positive := affordable.positive trade List.mem_cons_self
    have covered := affordable.head_le
    have safe := affordable.safe trade.restingOrderId
    obtain ⟨wire, isNamed, isNode, result⟩ :=
      normalizeTrades_cons node trade rest resting affordable
    have stillOwned : ∀ orderId, 0 < afterTrade truth trade orderId →
        ∃ node, owner orderId node := by
      intro orderId remains
      refine owned orderId ?_
      rw [afterTrade] at remains
      split_ifs at remains <;> omega
    obtain ⟨tracked, attributed⟩ := inductionHypothesis affordable.tail stillOwned
      (exactly.take positive covered safe)
    rw [result, afterTrades_cons]
    refine ⟨tracked, fun other member => ?_⟩
    rcases List.mem_cons.mp member with rfl | later
    · obtain ⟨ownerNode, isOwner⟩ := owned trade.restingOrderId (by omega)
      have found := (exactly trade.restingOrderId ⟨ownerNode, truth trade.restingOrderId⟩).mpr
        ⟨by omega, rfl, isOwner⟩
      rw [isNamed, isNode, RestingMap.attribute, found]
      exact isOwner
    · exact attributed other later

theorem OverEstimates.normalizeTrades (node : String) {trades : List (Trade Price)}
    (affordable : Affordable truth trades) (above : OverEstimates owner truth resting) :
    let result := RestingMap.normalizeTrades node (trades.map Trade.decode) resting
    OverEstimates owner (afterTrades truth trades) result.2 ∧
      (∀ orderId, 0 < afterTrades truth trades orderId → (resting.get orderId).isSome →
        (result.2.get orderId).isSome) ∧
      ∀ wire ∈ result.1, (wire.restingNode = "?" ∨ owner wire.resting wire.restingNode) ∧
        ((resting.get wire.resting).isSome → owner wire.resting wire.restingNode) := by
  induction trades generalizing truth resting with
  | nil =>
    rw [afterTrades_nil]
    exact ⟨above, fun _ _ held => held, fun _ member => nomatch member⟩
  | cons trade rest inductionHypothesis =>
    have positive := affordable.positive trade List.mem_cons_self
    have covered := affordable.head_le
    obtain ⟨wire, isNamed, isNode, result⟩ :=
      normalizeTrades_cons node trade rest resting affordable
    obtain ⟨tracked, keeps, attributed⟩ := inductionHypothesis affordable.tail
      (above.take positive covered)
    rw [result, afterTrades_cons]
    refine ⟨tracked, fun orderId remains held => ?_, fun other member => ?_⟩
    · refine keeps orderId remains (above.take_keeps positive covered ?_ held)
      have others := tradedAs_nonneg (fun other member =>
        affordable.positive other (List.mem_cons_of_mem trade member)) orderId
      rw [afterTrades] at remains
      omega
    · rcases List.mem_cons.mp member with rfl | later
      · rw [isNamed, isNode, RestingMap.attribute]
        cases found : resting.get trade.restingOrderId with
        | none => exact ⟨.inl rfl, fun held => by cases held⟩
        | some entry => exact ⟨.inr (above _ _ found).1, fun _ => (above _ _ found).1⟩
      · refine ⟨(attributed other later).1, fun held => (attributed other later).2 ?_⟩
        -- The later trade on this id finds something left under it by the first one.
        obtain ⟨laterTrade, inRest, sameId⟩ := normalizeTrades_named node rest _ other later
        refine above.take_keeps positive covered ?_ held
        have named := tradedAs_pos affordable.tail.positive inRest
        have enough := affordable.tail.covered laterTrade.restingOrderId
        rw [sameId] at named enough
        omega

end Trades

end MarketSandbox
