/-
This file models the exchange's entities: orders, the engine's results, and the
events an operation emits. Quantities are the source's `int64_t` as integers,
timestamps its `uint64_t` as naturals, and prices any type with the comparison
and the operations the book applies to them. The comparison need not be total,
since that of `double` is not: a NaN compares with no price. The enumerations
keep the values a client may send that have no enumerator.
-/

import Mathlib.Algebra.Field.Defs
import Mathlib.Data.Int.Cast.Defs
import Mathlib.Order.Lattice

namespace MarketSandbox

/-! ### Prices -/

/-- What the book does with a price: compare it, and compute notionals and averages. The laws
are those of the comparison of `double`. No law relates the operations to the order or to each
other, so the results that need none hold under rounding. -/
class PriceOperations (Price : Type) extends
  LT Price, Zero Price, Add Price, Mul Price, Div Price, IntCast Price where
  decidableEq : DecidableEq Price
  decidableLT : DecidableLT Price
  lt_irrefl : ∀ price : Price, ¬ price < price
  lt_trans : ∀ {first second third : Price}, first < second → second < third → first < third

instance (priority := low) PriceOperations.instDecidableEq (Price : Type)
    [PriceOperations Price] : DecidableEq Price :=
  PriceOperations.decidableEq

instance (priority := low) PriceOperations.instDecidableLT (Price : Type)
    [PriceOperations Price] : DecidableLT Price :=
  PriceOperations.decidableLT

/-- The comparison decides between two prices, as it does not when one of them is a NaN. -/
def Compares {Price : Type} [LT Price] (first second : Price) : Prop :=
  first < second ∨ first = second ∨ second < first

instance {Price : Type} [PriceOperations Price] (first second : Price) :
    Decidable (Compares first second) :=
  inferInstanceAs (Decidable (_ ∨ _ ∨ _))

/-- The price operations of totally ordered prices, none of which is NaN. -/
class PriceArithmetic (Price : Type) extends
  LinearOrder Price, Zero Price, Add Price, Mul Price, Div Price, IntCast Price

instance PriceArithmetic.toPriceOperations (Price : Type) [PriceArithmetic Price] :
    PriceOperations Price where
  decidableEq := LinearOrder.toDecidableEq
  decidableLT := LinearOrder.toDecidableLT
  lt_irrefl := lt_irrefl
  lt_trans := lt_trans

theorem Compares.of_linear {Price : Type} [LinearOrder Price] (first second : Price) :
    Compares first second :=
  lt_trichotomy first second

/-- Exact prices. -/
instance (priority := high) PriceArithmetic.ofField (Price : Type) [Field Price]
    [order : LinearOrder Price] : PriceArithmetic Price where
  toLinearOrder := order

/-- Prices with a NaN. -/
inductive WithNaN (Price : Type)
  | nan
  | number (value : Price)
  deriving DecidableEq

namespace WithNaN

variable {Price : Type}

/-- A NaN compares with nothing. -/
def Less [LT Price] : WithNaN Price → WithNaN Price → Prop
  | .number first, .number second => first < second
  | _, _ => False

/-- An operation whose result is NaN when an operand is. -/
def lift (operation : Price → Price → Price) : WithNaN Price → WithNaN Price → WithNaN Price
  | .number first, .number second => .number (operation first second)
  | _, _ => .nan

instance [LT Price] [DecidableLT Price] : DecidableRel (Less : WithNaN Price → WithNaN Price → Prop)
  | .number first, .number second => inferInstanceAs (Decidable (first < second))
  | .nan, _ => isFalse id
  | .number _, .nan => isFalse id

instance [PriceArithmetic Price] : PriceOperations (WithNaN Price) where
  lt := Less
  zero := .number 0
  add := lift (· + ·)
  mul := lift (· * ·)
  div := lift (· / ·)
  intCast quantity := .number quantity
  decidableEq := inferInstance
  decidableLT := inferInstanceAs (DecidableRel Less)
  lt_irrefl price less := by
    cases price with
    | nan => exact less
    | number value => exact lt_irrefl value less
  lt_trans {first second third} less more := by
    cases first with
    | nan => exact less.elim
    | number low =>
      cases second with
      | nan => exact less.elim
      | number middle =>
        cases third with
        | nan => exact more.elim
        | number high => exact lt_trans less more

/-- Prices other than NaN compare. -/
theorem compares_of_ne_nan [PriceArithmetic Price] {first second : WithNaN Price}
    (isNumber : first ≠ nan) (isOther : second ≠ nan) : Compares first second := by
  cases first with
  | nan => exact absurd rfl isNumber
  | number low =>
    cases second with
    | nan => exact absurd rfl isOther
    | number high => exact (lt_trichotomy low high).imp_right (Or.imp_left (congrArg number))

end WithNaN

/-! ### Entities -/

/-- `ORDER_SIDE`. -/
inductive OrderSide
  | unspecified
  | bid
  | ask
  | unrecognized (value : Int)
  deriving DecidableEq, Repr

/-- `ORDER_TYPE`. -/
inductive OrderType
  | unspecified
  | market
  | limit
  | unrecognized (value : Int)
  deriving DecidableEq, Repr

/-- `ORDER_STATUS`. -/
inductive OrderStatus
  | unspecified
  | filled
  | partialFill
  | queued
  | rejected
  deriving DecidableEq, Repr

/-- `Order`. -/
structure Order (Price : Type) where
  side : OrderSide
  orderType : OrderType
  price : Price
  quantity : Int
  orderId : String
  nodeId : String
  deriving DecidableEq

/-- `Order::reduceQuantity`. -/
def Order.reduceQuantity {Price : Type} (order : Order Price) (filled : Int) : Order Price :=
  { order with quantity := order.quantity - filled }

section Reduce

variable {Price : Type} (order : Order Price) (filled : Int)

@[simp] theorem Order.reduceQuantity_side : (order.reduceQuantity filled).side = order.side := rfl

@[simp] theorem Order.reduceQuantity_price :
    (order.reduceQuantity filled).price = order.price := rfl

@[simp] theorem Order.reduceQuantity_quantity :
    (order.reduceQuantity filled).quantity = order.quantity - filled := rfl

@[simp] theorem Order.reduceQuantity_orderId :
    (order.reduceQuantity filled).orderId = order.orderId := rfl

@[simp] theorem Order.reduceQuantity_nodeId :
    (order.reduceQuantity filled).nodeId = order.nodeId := rfl

end Reduce

/-- `EngineResult`. -/
structure EngineResult (Price : Type) where
  status : OrderStatus
  orderId : String
  filledQuantity : Int
  avgPrice : Price
  timestamp : Nat
  rejectionReason : String
  cancelSuccessful : Bool
  deriving DecidableEq

/-- A default-constructed `EngineResult` with its timestamp and order id set. -/
def EngineResult.initial {Price : Type} [Zero Price] (timestamp : Nat) (orderId : String) :
    EngineResult Price where
  status := .unspecified
  orderId := orderId
  filledQuantity := 0
  avgPrice := 0
  timestamp := timestamp
  rejectionReason := ""
  cancelSuccessful := false

/-- `Trade`. -/
structure Trade (Price : Type) where
  tradeId : String
  price : Price
  quantity : Int
  aggressorSide : OrderSide
  aggressorOrderId : String
  restingOrderId : String
  timestamp : Nat
  deriving DecidableEq

/-- `TopOfBook`. -/
structure TopOfBook (Price : Type) where
  bidPrice : Option Price
  bidQuantity : Option Int
  askPrice : Option Price
  askQuantity : Option Int
  timestamp : Nat
  deriving DecidableEq

/-- `MarketEvent`. -/
inductive MarketEvent (Price : Type)
  | monostate
  | trade (executed : Trade Price)
  | topOfBook (top : TopOfBook Price)
  deriving DecidableEq

/-- The trade an event carries. -/
def MarketEvent.trade? {Price : Type} : MarketEvent Price → Option (Trade Price)
  | .trade executed => some executed
  | .monostate | .topOfBook _ => none

/-- `DepthLevel`. -/
structure DepthLevel (Price : Type) where
  price : Price
  quantity : Int
  orders : Nat
  deriving DecidableEq

/-- `BookDepth`. -/
structure BookDepth (Price : Type) where
  bids : List (DepthLevel Price)
  asks : List (DepthLevel Price)
  deriving DecidableEq

/-- `TradeIdGenerator::next` at a value of its counter. -/
def tradeIdAt (counter : Nat) : String := "TRD-" ++ toString counter

/-- `OrderIdGenerator::next` at a value of its counter. -/
def orderIdAt (counter : Nat) : String := "ORD-" ++ toString counter

theorem orderIdAt_injective : Function.Injective orderIdAt := by
  intro first second same
  have digits : (toString first).toList = (toString second).toList := by
    have chars := congrArg String.toList same
    rw [orderIdAt, orderIdAt, String.toList_append, String.toList_append] at chars
    exact List.append_cancel_left chars
  rw [Nat.toString_eq_repr, Nat.toString_eq_repr, Nat.toList_repr, Nat.toList_repr] at digits
  have values := congrArg (Nat.ofDigitChars 10 · 0) digits
  simpa only [Nat.ofDigitChars_ten_toDigits] using values

end MarketSandbox
