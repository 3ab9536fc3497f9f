/-
This file compares the trade tape and the price chart. Both walk the frames
backwards from the one shown. The tape walks each batch's trades backwards too,
so its reverse is the order in which the trades were made; the chart walks them
forwards and reverses everything at the end, which turns each batch's trades
around. The two agree exactly when no batch of the window shows the difference.
-/

import Mathlib.Data.List.Palindrome
import MarketSandbox.Web.Derive

namespace MarketSandbox

variable {Price : Type}

/-! ### The views -/

/-- `TradePoint`. -/
structure TradePoint (Price : Type) where
  atTime : Int
  price : Price
  qty : Int
  aggressorSide : BookSide
  aggressorNode : String
  restingNode : String
  id : String
  deriving DecidableEq

/-- `QuotePoint`. -/
structure QuotePoint (Price : Type) where
  atTime : Int
  bid : Option Price
  ask : Option Price

/-- The point of a trade. -/
def WireTrade.point (atTime : Int) (trade : WireTrade Price) : TradePoint Price where
  atTime := atTime
  price := trade.price
  qty := trade.qty
  aggressorSide := trade.aggressorSide
  aggressorNode := trade.aggressorNode
  restingNode := trade.restingNode
  id := trade.id

/-- The point of a batch's top of book. -/
def WireBatch.quote (wire : WireBatch Price) : Option (QuotePoint Price) :=
  wire.tob.map fun top => ⟨wire.atTime, top.bid, top.ask⟩

/-- The inner loop of `recentTrades`, over the trades before a position. -/
def tapeTrades (wire : WireBatch Price) (max : Nat) :
    Nat → List (TradePoint Price) → List (TradePoint Price)
  | 0, out => out
  | position + 1, out =>
    if out.length < max then
      tapeTrades wire max position
        (out ++ (wire.trades[position]?.map (WireTrade.point wire.atTime)).toList)
    else out

/-- The loop of `recentTrades`, over the frames before a position. -/
def tapeBefore (frames : List (Frame Price)) (max : Nat) :
    Nat → List (TradePoint Price) → List (TradePoint Price)
  | 0, out => out
  | position + 1, out =>
    if out.length < max then
      match frames[position]? with
      | some (.batch wire) =>
        tapeBefore frames max position (tapeTrades wire max wire.trades.length out)
      | _ => tapeBefore frames max position out
    else out

/-- `recentTrades`. -/
def recentTrades (frames : List (Frame Price)) (idx : Int) (max : Nat) :
    List (TradePoint Price) :=
  tapeBefore frames max (min idx (frames.length - 1) + 1).toNat []

/-- What `priceSeries` returns; its window is from `start` to `stop`. -/
structure PriceSeries (Price : Type) where
  trades : List (TradePoint Price)
  quotes : List (QuotePoint Price)
  start : ℚ
  stop : ℚ

/-- The loop of `priceSeries`, over the frames before a position. -/
def seriesBefore (frames : List (Frame Price)) (start : ℚ) :
    Nat → List (TradePoint Price) × List (QuotePoint Price) →
      List (TradePoint Price) × List (QuotePoint Price)
  | 0, found => found
  | position + 1, found =>
    match frames[position]? with
    | none => found
    | some frame =>
      if (frame.atTime : ℚ) < start then found
      else
        match frame with
        | .book _ _ => seriesBefore frames start position found
        | .batch wire =>
          seriesBefore frames start position
            (found.1 ++ wire.trades.map (WireTrade.point wire.atTime),
              found.2 ++ wire.quote.toList)

/-- `priceSeries`; it throws when there is no frame at a nonnegative `idx`. -/
def priceSeries (frames : List (Frame Price)) (idx : Int) (windowMs : ℚ) :
    Option (PriceSeries Price) :=
  if idx < 0 then some ⟨[], [], 0, 0⟩
  else
    frames[idx.toNat]?.map fun last =>
      let found := seriesBefore frames (last.atTime - windowMs) (idx.toNat + 1) ([], [])
      { trades := found.1.reverse
        quotes := found.2.reverse
        start := last.atTime - windowMs
        stop := last.atTime }

/-! ### The points of the frames -/

/-- The points of a frame's trades, in the order in which they were made. -/
def Frame.points : Frame Price → List (TradePoint Price)
  | .batch wire => wire.trades.map (WireTrade.point wire.atTime)
  | .book _ _ => []

/-- The point of a frame's top of book. -/
def Frame.quote : Frame Price → Option (QuotePoint Price)
  | .batch wire => wire.quote
  | .book _ _ => none

theorem Frame.atTime_of_mem_points {frame : Frame Price} {point : TradePoint Price}
    (member : point ∈ frame.points) : point.atTime = frame.atTime := by
  cases frame with
  | batch wire =>
    obtain ⟨trade, _, rfl⟩ := List.mem_map.mp member
    rfl
  | book atTime book => exact absurd member List.not_mem_nil

/-! ### The tape -/

/-- What is cut to a length may be cut before something is added. -/
theorem take_take_append {Value : Type} (values more : List Value) (count : Nat) :
    (values.take count ++ more).take count = (values ++ more).take count := by
  have rest : count - (values.take count).length = count - values.length := by
    rw [List.length_take]
    omega
  rw [List.take_append, List.take_append, rest, List.take_take, min_self]

/-- The inner loop of `recentTrades` takes the latest trades first, as far as there is room. -/
theorem tapeTrades_eq (wire : WireBatch Price) (max position : Nat)
    (out : List (TradePoint Price)) (inside : position ≤ wire.trades.length)
    (room : out.length ≤ max) :
    tapeTrades wire max position out =
      (out ++ ((wire.trades.take position).map (WireTrade.point wire.atTime)).reverse).take
        max := by
  induction position generalizing out with
  | zero => simp [tapeTrades, List.take_of_length_le room]
  | succ position inductionHypothesis =>
    have here : position < wire.trades.length := inside
    rw [tapeTrades, List.getElem?_eq_getElem here, Option.map_some, Option.toList_some]
    split
    · rename_i less
      rw [inductionHypothesis _ here.le (by rw [List.length_append]; exact less),
        List.append_assoc, List.take_add_one, List.getElem?_eq_getElem here, Option.toList_some,
        List.map_append, List.reverse_append, List.map_singleton, List.reverse_singleton]
    · rename_i full
      have length : out.length = max := by omega
      rw [← length, List.take_left]

/-- The loop of `recentTrades` takes the latest trades first, as far as there is room. -/
theorem tapeBefore_eq (frames : List (Frame Price)) (max count : Nat)
    (out : List (TradePoint Price)) (inside : count ≤ frames.length) (room : out.length ≤ max) :
    tapeBefore frames max count out =
      (out ++ ((frames.take count).flatMap Frame.points).reverse).take max := by
  induction count generalizing out with
  | zero => simp [tapeBefore, List.take_of_length_le room]
  | succ position inductionHypothesis =>
    have here : position < frames.length := inside
    rw [tapeBefore, List.getElem?_eq_getElem here, List.take_add_one,
      List.getElem?_eq_getElem here, Option.toList_some, List.flatMap_append,
      List.flatMap_singleton, List.reverse_append]
    split
    · cases frames[position] with
      | batch wire =>
        simp only [Frame.points]
        rw [tapeTrades_eq wire max _ out le_rfl room, List.take_length,
          inductionHypothesis _ here.le (List.length_take_le _ _), take_take_append,
          List.append_assoc]
      | book atTime book => exact inductionHypothesis out here.le room
    · rename_i full
      have length : out.length = max := by omega
      rw [← length, List.take_left]

/-- `recentTrades` is the latest trades up to a frame, the newest first. -/
theorem recentTrades_eq (frames : List (Frame Price)) {idx : Nat} (valid : idx < frames.length)
    (max : Nat) :
    recentTrades frames idx max =
      (((frames.take (idx + 1)).flatMap Frame.points).reverse).take max := by
  have count : (min (idx : Int) (frames.length - 1) + 1).toNat = idx + 1 := by omega
  rw [recentTrades, count, tapeBefore_eq frames max _ _ valid (Nat.zero_le _), List.nil_append]

/-! ### The chart -/

/-- The frames up to a count that are not before a time. -/
def framesFrom (frames : List (Frame Price)) (start : ℚ) (count : Nat) : List (Frame Price) :=
  (frames.take count).filter fun frame => decide (start ≤ frame.atTime)

/-- One more frame of sorted frames joins those not before a time, or there are none. -/
theorem framesFrom_succ {frames : List (Frame Price)} (sorted : Sorted frames) (start : ℚ)
    {position : Nat} (here : position < frames.length) :
    framesFrom frames start (position + 1) =
      if (frames[position].atTime : ℚ) < start then []
      else framesFrom frames start position ++ [frames[position]] := by
  rw [framesFrom, List.take_add_one, List.getElem?_eq_getElem here, Option.toList_some,
    List.filter_append]
  split
  · rename_i before
    rw [List.append_eq_nil_iff]
    constructor
    · refine List.filter_eq_nil_iff.mpr fun frame member => ?_
      obtain ⟨earlier, inside, rfl⟩ := List.mem_take_iff_getElem.mp member
      have order : frames[earlier].atTime ≤ frames[position].atTime :=
        sorted.getElem_le (by omega) here
      have order' : (frames[earlier].atTime : ℚ) ≤ frames[position].atTime := by
        exact_mod_cast order
      simpa using order'.trans_lt before
    · simpa using before
  · rename_i within
    have passes : start ≤ frames[position].atTime := not_lt.mp within
    simp only [framesFrom, List.filter_singleton, passes, decide_true, cond_true]

/-- The loop of `priceSeries` finds the trades of each frame in order, the last frame first. -/
theorem seriesBefore_eq {frames : List (Frame Price)} (sorted : Sorted frames) (start : ℚ)
    (count : Nat) (inside : count ≤ frames.length)
    (found : List (TradePoint Price) × List (QuotePoint Price)) :
    seriesBefore frames start count found =
      (found.1 ++ (framesFrom frames start count).reverse.flatMap Frame.points,
        found.2 ++ (framesFrom frames start count).reverse.filterMap Frame.quote) := by
  induction count generalizing found with
  | zero => simp [seriesBefore, framesFrom]
  | succ position inductionHypothesis =>
    have here : position < frames.length := inside
    rw [seriesBefore, List.getElem?_eq_getElem here, framesFrom_succ sorted start here]
    by_cases before : (frames[position].atTime : ℚ) < start
    · simp [before]
    · simp only [if_neg before, List.reverse_append, List.reverse_singleton, List.singleton_append,
        List.flatMap_cons, List.filterMap_cons]
      cases frames[position] with
      | batch wire =>
        simp only [Frame.points, Frame.quote]
        rw [inductionHypothesis here.le]
        cases wire.quote <;> simp
      | book atTime book => exact inductionHypothesis here.le found

/-- `priceSeries` turns each frame's trades around, and has the quotes in order. -/
theorem priceSeries_eq {frames : List (Frame Price)} (sorted : Sorted frames) {idx : Nat}
    (valid : idx < frames.length) (windowMs : ℚ) :
    let start : ℚ := frames[idx].atTime - windowMs
    priceSeries frames idx windowMs = some
      { trades := (framesFrom frames start (idx + 1)).flatMap fun frame => frame.points.reverse
        quotes := (framesFrom frames start (idx + 1)).filterMap Frame.quote
        start := start
        stop := frames[idx].atTime } := by
  intro start
  rw [priceSeries, if_neg (by omega), Int.toNat_natCast, List.getElem?_eq_getElem valid,
    Option.map_some, seriesBefore_eq sorted _ _ valid]
  simp only [List.nil_append, List.reverse_flatMap, List.reverse_reverse, ← List.filterMap_reverse]
  rfl

/-! ### The order of the trades -/

/-- Lists that are made of pieces of the same lengths are equal when the pieces are. -/
theorem flatMap_congr_iff {Value Piece : Type} (values : List Value)
    (first second : Value → List Piece)
    (lengths : ∀ value ∈ values, (first value).length = (second value).length) :
    values.flatMap first = values.flatMap second ↔
      ∀ value ∈ values, first value = second value := by
  induction values with
  | nil => simp
  | cons value rest inductionHypothesis =>
    rw [List.forall_mem_cons] at lengths ⊢
    rw [List.flatMap_cons, List.flatMap_cons, ← inductionHypothesis lengths.2]
    constructor
    · exact fun equal => List.append_inj equal lengths.1
    · rintro ⟨head, tail⟩
      rw [head, tail]

/-- The trades of the frames not before a time are the trades not before it. -/
theorem filter_flatMap_points (frames : List (Frame Price)) (start : ℚ) :
    (frames.flatMap Frame.points).filter (fun point => decide (start ≤ point.atTime)) =
      (frames.filter fun frame => decide (start ≤ frame.atTime)).flatMap Frame.points := by
  induction frames with
  | nil => rfl
  | cons frame rest inductionHypothesis =>
    rw [List.flatMap_cons, List.filter_append, inductionHypothesis, List.filter_cons]
    by_cases within : start ≤ (frame.atTime : ℚ)
    · have all : frame.points.filter (fun point => decide (start ≤ point.atTime)) =
          frame.points := by
        refine List.filter_eq_self.mpr fun point member => ?_
        rw [Frame.atTime_of_mem_points member]
        exact decide_eq_true within
      simp [all, within]
    · have none : frame.points.filter (fun point => decide (start ≤ point.atTime)) = [] := by
        refine List.filter_eq_nil_iff.mpr fun point member => ?_
        rw [Frame.atTime_of_mem_points member]
        simpa using within
      simp [none, within]

/-- Trades with distinct ids read the same in both directions when there is at most one. -/
theorem points_palindrome_iff {frame : Frame Price}
    (distinct : (frame.points.map TradePoint.id).Nodup) :
    frame.points.Palindrome ↔ frame.points.length ≤ 1 := by
  constructor
  · intro palindrome
    by_contra several
    have ids : (frame.points.map TradePoint.id).reverse = frame.points.map TradePoint.id := by
      rw [← List.map_reverse, palindrome.reverse_eq]
    have length : (frame.points.map TradePoint.id).length = frame.points.length :=
      List.length_map _
    have first : 0 < (frame.points.map TradePoint.id).length := by omega
    have last : frame.points.length - 1 < (frame.points.map TradePoint.id).length := by omega
    have ends : (frame.points.map TradePoint.id)[0] =
        (frame.points.map TradePoint.id)[frame.points.length - 1] := by
      rw [← List.getElem_of_eq ids (by rwa [List.length_reverse]), List.getElem_reverse]
      simp only [length, Nat.sub_zero]
    have positions := (List.Nodup.getElem_inj_iff distinct).mp ends
    omega
  · intro few
    rcases points : frame.points with _ | ⟨point, _ | ⟨second, rest⟩⟩
    · exact .nil
    · exact .singleton point
    · rw [points] at few
      simp at few

/-- The trades of the chart are those of the tape, the other way around, within the window. -/
def ChartAgrees (frames : List (Frame Price)) (idx : Nat) (windowMs : ℚ) : Prop :=
  ∃ series, priceSeries frames idx windowMs = some series ∧ ∃ enough, ∀ max, enough ≤ max →
    series.trades =
      (recentTrades frames idx max).reverse.filter fun point => decide (series.start ≤ point.atTime)

/-- The chart agrees with the tape when turning each frame's trades around changes nothing. -/
theorem chart_agrees_iff_window {frames : List (Frame Price)} (sorted : Sorted frames) {idx : Nat}
    (valid : idx < frames.length) (windowMs : ℚ) :
    ChartAgrees frames idx windowMs ↔
      ((framesFrom frames (frames[idx].atTime - windowMs) (idx + 1)).flatMap fun frame =>
        frame.points.reverse) =
      (framesFrom frames (frames[idx].atTime - windowMs) (idx + 1)).flatMap Frame.points := by
  let start : ℚ := frames[idx].atTime - windowMs
  let made := (frames.take (idx + 1)).flatMap Frame.points
  have tape : ∀ max, made.length ≤ max → (recentTrades frames idx max).reverse.filter
      (fun point => decide (start ≤ point.atTime)) =
        (framesFrom frames start (idx + 1)).flatMap Frame.points := by
    intro max enough
    rw [recentTrades_eq frames valid, List.take_of_length_le (by rwa [List.length_reverse]),
      List.reverse_reverse, filter_flatMap_points, framesFrom]
  constructor
  · rintro ⟨series, shown, enough, agrees⟩
    cases (priceSeries_eq sorted valid windowMs).symm.trans shown
    exact (agrees _ (le_max_left enough made.length)).trans (tape _ (le_max_right _ _))
  · intro equal
    refine ⟨_, priceSeries_eq sorted valid windowMs, made.length, fun max enough => ?_⟩
    exact equal.trans (tape max enough).symm

/-- The chart agrees with the tape exactly when each batch in the window has trades that read the
same in both directions. -/
theorem chart_agrees_iff {frames : List (Frame Price)} (sorted : Sorted frames) {idx : Nat}
    (valid : idx < frames.length) (windowMs : ℚ) :
    ChartAgrees frames idx windowMs ↔
      ∀ frame ∈ frames.take (idx + 1), (frames[idx].atTime : ℚ) - windowMs ≤ frame.atTime →
        frame.points.Palindrome := by
  rw [chart_agrees_iff_window sorted valid, flatMap_congr_iff _ _ _ fun frame _ =>
    List.length_reverse]
  simp only [framesFrom, List.mem_filter, decide_eq_true_iff, and_imp,
    List.Palindrome.iff_reverse_eq]

/-- A batch whose order trades twice. -/
def twoTrades : WireBatch Int where
  t := "batch"
  atTime := 10
  seq := 1
  op := .submit
  order :=
    { id := "ORD-3", node := "mm-1", side := some .bid, type := some .limit, price := 102, qty := 2,
      status := some .filled, filled := 2, avg := 101, reason := "", cancelOk := false }
  trace := ⟨0, 0, 0, 0, 0⟩
  trades :=
    [⟨"TRD-1", 101, 1, .bid, "ORD-3", "mm-1", "ORD-1", "mm-2"⟩,
      ⟨"TRD-2", 102, 1, .bid, "ORD-3", "mm-1", "ORD-2", "mm-2"⟩]
  tob := none
  book := none

/-- The chart shows the two trades of a batch in the opposite order. -/
theorem chart_reverses_batch :
    Sorted [Frame.batch twoTrades] ∧ ¬ ChartAgrees [Frame.batch twoTrades] 0 90000 := by
  have sorted : Sorted [Frame.batch twoTrades] := List.pairwise_singleton _ _
  refine ⟨sorted, fun agrees => ?_⟩
  have turned := (chart_agrees_iff_window sorted Nat.zero_lt_one 90000).mp agrees
  exact absurd turned (by decide +kernel)

/-- Three batches with one trade each, and one without. -/
def oneTradeFrames : List (Frame Int) :=
  [.batch { twoTrades with atTime := 10, trades := twoTrades.trades.take 1 },
    .batch { twoTrades with atTime := 12, seq := 2, trades := [] },
    .batch { twoTrades with atTime := 12, seq := 3, trades := twoTrades.trades.drop 1 },
    .batch { twoTrades with
      atTime := 15
      seq := 4
      trades := [⟨"TRD-3", 103, 4, .ask, "ORD-5", "mom-1", "ORD-4", "mm-1"⟩] }]

/-- The window leaves out the first batch. -/
theorem chart_agrees_iff_sample : ChartAgrees oneTradeFrames 3 4 := by
  have distinct : ∀ frame ∈ oneTradeFrames, (frame.points.map TradePoint.id).Nodup := by decide
  have few : ∀ frame ∈ oneTradeFrames, frame.points.length ≤ 1 := by decide
  refine (chart_agrees_iff (by decide) (by decide) 4).mpr fun frame shown _ => ?_
  have member := List.mem_of_mem_take shown
  exact (points_palindrome_iff (distinct frame member)).mpr (few frame member)

end MarketSandbox
