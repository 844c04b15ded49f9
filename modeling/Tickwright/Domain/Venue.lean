/-
# Domain.Venue -- intents, and what crosses the exchange seam

Signals in, order requests out, and the answers a venue read comes back with.
A `VenueOrderView` is a *successful* read: a failed one is never a view, so an
outage cannot read as "no record".

`placeOrderOf` builds the request the venue works from the saga itself, at the
size still open, so the durable row holds exactly the terms that were sent
(`placeOrderOf_terms`).
-/
import Tickwright.Domain.Position

namespace Tickwright.Domain

set_option autoImplicit false

/-! ## Signals -/

/-- Intent to place an order. -/
structure PlaceSignal where
  strategyId : StrategyId
  symbol : Symbol
  seq : ℕ
  side : Side
  quantity : Decimal
  orderType : OrderType
  timeInForce : TimeInForce
  price : Option Decimal := none
  postOnly : Bool := false
  reduceOnly : Bool := false
deriving DecidableEq

/-- Intent to cancel the order placed by `targetSignalId`. -/
structure CancelSignal where
  strategyId : StrategyId
  symbol : Symbol
  seq : ℕ
  targetSignalId : SignalId
deriving DecidableEq

/-- Intent to cancel every open order the strategy sent earlier on `symbol`. -/
structure CancelAllSignal where
  strategyId : StrategyId
  symbol : Symbol
  seq : ℕ
deriving DecidableEq

namespace PlaceSignal

def signalId (signal : PlaceSignal) : SignalId :=
  ⟨signal.strategyId, signal.symbol, signal.seq⟩

/-- `is_flatten`: the operator's reduce-only order. -/
def isFlatten (signal : PlaceSignal) : Bool :=
  decide (signal.strategyId = operator) && signal.reduceOnly

/-- What the emitter lets through: a market order names no price, a limit order
always names one. -/
def WellFormed (signal : PlaceSignal) : Prop :=
  match signal.orderType with
  | .market => signal.price = none
  | .limit => signal.price.isSome = true

instance (signal : PlaceSignal) : Decidable signal.WellFormed := by
  unfold WellFormed
  cases signal.orderType <;> infer_instance

end PlaceSignal

def CancelSignal.signalId (signal : CancelSignal) : SignalId :=
  ⟨signal.strategyId, signal.symbol, signal.seq⟩

def CancelAllSignal.signalId (signal : CancelAllSignal) : SignalId :=
  ⟨signal.strategyId, signal.symbol, signal.seq⟩

/-! ## Order requests -/

/-- The venue-neutral order the `ExecutionManager` hands to `Exchange.place`.
`limitPrice = none` is a `MarketOrder`, a price a `LimitOrder` at it. -/
structure PlaceOrder where
  cloid : Cloid
  symbol : Symbol
  side : Side
  quantity : Decimal
  timeInForce : TimeInForce
  postOnly : Bool := false
  reduceOnly : Bool := false
  limitPrice : Option Decimal := none
deriving DecidableEq

/-- A `PlaceOrder` that names a price. -/
structure LimitOrder extends PlaceOrder where
  price : Decimal
  isLimit : limitPrice = some price
deriving DecidableEq

/-- `isinstance(order, LimitOrder)`. -/
def PlaceOrder.asLimit (order : PlaceOrder) : Option LimitOrder :=
  match priced : order.limitPrice with
  | none => none
  | some price => some { order with price := price, isLimit := priced }

theorem PlaceOrder.asLimit_eq {order : PlaceOrder} {limit : LimitOrder}
    (is : order.asLimit = some limit) : limit.toPlaceOrder = order := by
  simp only [asLimit] at is
  split at is
  · cases is
  · cases is
    rfl

/-- The order the venue works for `order`: its terms, at the size still open. -/
def placeOrderOf (order : Order) : Except InvariantViolation PlaceOrder :=
  match order.timeInForce with
  | none => .error (.unplaceable order.cloid)
  | some timeInForce =>
      let request : PlaceOrder :=
        { cloid := order.cloid
          symbol := order.symbol
          side := order.side
          quantity := order.quantity - order.cumQty
          timeInForce := timeInForce
          postOnly := order.postOnly
          reduceOnly := order.reduceOnly }
      match order.orderType, order.price with
      | .market, _ => .ok request
      | .limit, none => .error (.unplaceable order.cloid)
      | .limit, some price => .ok { request with limitPrice := some price }

/-- **The request carries the saga's own terms.** -/
theorem placeOrderOf_terms {order : Order} {request : PlaceOrder}
    (built : placeOrderOf order = .ok request) :
    request.cloid = order.cloid ∧ request.symbol = order.symbol ∧ request.side = order.side ∧
      request.quantity = order.quantity - order.cumQty ∧
      some request.timeInForce = order.timeInForce ∧
      request.postOnly = order.postOnly ∧ request.reduceOnly = order.reduceOnly ∧
      request.limitPrice = if order.orderType = .limit then order.price else none := by
  simp only [placeOrderOf] at built
  split at built
  · cases built
  · rename_i timeInForce chosen
    split at built
    · rename_i market
      cases built
      simp [chosen, market]
    · cases built
    · rename_i limit priced
      cases built
      simp [chosen, limit, priced]

/-- How a venue read in flight failed. -/
inductive VenueReadFailure
  | sendFailed
  | unreadableBody
  | rateLimitedIp
deriving DecidableEq

/-- What a venue call needs to find one order. -/
structure OrderRef where
  cloid : Cloid
  symbol : Symbol
  venueOid : Option String := none
  ackedTsNs : Option Nanos := none
  createdTsNs : Option Nanos := none
  quantity : Option Decimal := none
deriving DecidableEq

def OrderRef.of (order : Order) : OrderRef where
  cloid := order.cloid
  symbol := order.symbol
  venueOid := order.venueOid
  ackedTsNs := order.ackedTsNs
  createdTsNs := order.createdTsNs
  quantity := some order.quantity

/-! ## Venue truth -/

/-- One successful venue read for a cloid: the venue's order record, `none` when
it positively has none, beside that cloid's fills. -/
structure VenueOrderView where
  status : Option OrderStatusReport
  fills : List FillReport := []
deriving DecidableEq

/-- Whether the venue knows this cloid at all. -/
def VenueOrderView.hasRecord (view : VenueOrderView) : Bool :=
  view.status.isSome || !view.fills.isEmpty

/-- One position inside a successful venue account read.  A bucket of `none`
means the venue holds the symbol cross, an entry of `none` that it posts none. -/
structure VenuePositionState where
  symbol : Symbol
  signedSize : Decimal
  entryPrice : Option Decimal
  notional : Decimal
  unrealizedPnl : Decimal
  isolatedCollateral : Option Decimal
deriving DecidableEq

/-- Signed size times entry, as the venue holds it, read off the notional and the
open PnL because a venue may display a rounded entry. -/
def VenuePositionState.costBasis (position : VenuePositionState) : Decimal :=
  (if position.signedSize < 0 then -|position.notional| else |position.notional|) -
    position.unrealizedPnl

/-- The part of a venue account snapshot the ledger ingests and its Tier-1 check
reads.  `cashDecimals` counts the decimals of the venue's cash unit: the source
refuses a unit that is not `1` or `0.0…01`. -/
structure VenueAccountState where
  equity : Decimal
  cashDecimals : ℕ
  positions : List VenuePositionState
deriving DecidableEq

namespace VenueAccountState

/-- `cash_quantum`: the smallest cash unit the venue reports. -/
def cashQuantum (state : VenueAccountState) : Decimal := (10 : Decimal) ^ (-(state.cashDecimals : ℤ))

end VenueAccountState

/-- The cash line a venue snapshot implies: equity less the open PnL in it. -/
def venueCash (state : VenueAccountState) : Decimal :=
  state.equity - (state.positions.map VenuePositionState.unrealizedPnl).sum

/-- The venue's cash line less the cost basis of its open positions. -/
def venueNetCash (state : VenueAccountState) : Decimal :=
  venueCash state - (state.positions.map VenuePositionState.costBasis).sum

/-! ## Ledger inputs that ride no order -/

/-- One size heal, booked on the unattributed partition at no fee. -/
structure ReconciliationFill where
  symbol : Symbol
  side : Side
  quantity : Decimal
  price : Decimal
  tsNs : Nanos
deriving DecidableEq

def ReconciliationFill.bookable (fill : ReconciliationFill) : BookableFill where
  eventId := .reconcile fill.symbol fill.tsNs
  owner := none
  symbol := fill.symbol
  quantity := fill.quantity
  price := fill.price
  fee := 0

/-- The net cash the account cycle corrects the cash line to. -/
structure CashCorrection where
  netCash : Decimal
  tsNs : Nanos
deriving DecidableEq

/-- One boundary's signed funding payment. -/
structure FundingAccrual where
  symbol : Symbol
  boundaryTsNs : Nanos
  amount : Decimal
deriving DecidableEq

inductive MarginMode
  | cross
  | isolated
deriving DecidableEq

def MarginMode.value : MarginMode → String
  | cross => "cross"
  | isolated => "isolated"

/-- The margin mode and leverage a symbol is computed against. -/
structure LeverageSpec where
  mode : MarginMode := .isolated
  leverage : ℤ := 1
deriving DecidableEq

end Tickwright.Domain
