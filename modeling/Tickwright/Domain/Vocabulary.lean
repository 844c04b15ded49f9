/-
# Domain.Vocabulary -- identifiers, enumerations and events

The words every later module speaks: the enumerations of an order's intent and
life, the structured form of a `signal_id`, and the events and reports that
carry facts between the components.

Money is exact (`Decimal` is `ℚ`).  The source's context keeps 28 significant digits of
a sum, a product or a quotient, ties to even, and that rounding is left out wherever
`rounded` is not written: it is written for a saga's own total (`Domain.OrderCalls`), a
figure on the wire (`Hyperliquid.Wire`) and a bucket's shares (`Engine.Shares`).  Every
other figure, the ledger's cash and sizes, the fills of an order at the venue, the guard's
exposure and quantized figures, and the valuations, is one whose digits fit.

An `event_id` is kept as the constructor its
format string names, since every id is rendered from domain identity only and a
`cloid` is a hex digest with no colon in it: two ids are equal exactly when
their rendered strings are.

`StrategyId` excludes the stored name of the unattributed partition.  The source
refuses that name where an id is declared (`reserved_id_refusal`), so no later
module has to ask.
-/
import Mathlib.Data.Rat.Defs
import Mathlib.Algebra.Order.Ring.Rat
import Mathlib.Data.Rat.Floor
import Mathlib.Data.Finset.Insert
import Tickwright.Theory.HalfEven

namespace Tickwright.Domain

set_option autoImplicit false

/-- Exact money and size. -/
abbrev Decimal := ℚ

/-- What the source's context keeps of a result: 28 significant digits. -/
def rounded (result : Decimal) : Decimal := Theory.roundDigits 10 28 result

/-- So many digits write it, and the context keeps it whole. -/
def Representable (x : Decimal) : Prop := Theory.Digits (10 : Decimal) 28 x

/-- UTC epoch nanoseconds. -/
abbrev Nanos := Int

abbrev Symbol := String
abbrev Cloid := String

theorem ten_cast : ((10 : ℕ) : Decimal) = 10 := Nat.cast_ofNat

theorem rounded_of_representable {x : Decimal} (fits : Representable x) : rounded x = x :=
  Theory.roundDigits_of_digits (by omega) (ten_cast ▸ fits)

theorem rounded_representable {x : Decimal} (nonneg : 0 ≤ x) : Representable (rounded x) := by
  rw [Representable, ← ten_cast]
  exact Theory.roundDigits_digits (by omega) (by omega) nonneg

theorem rounded_pos {x : Decimal} (positive : 0 < x) : 0 < rounded x :=
  Theory.roundDigits_pos (by omega) (by omega) positive

/-! ## Enumerations -/

inductive Side
  | buy
  | sell
deriving DecidableEq, Repr

inductive OrderType
  | market
  | limit
deriving DecidableEq, Repr

inductive TimeInForce
  | gtc
  | ioc
deriving DecidableEq, Repr

/-- The order-lifecycle saga states. -/
inductive OrderState
  | pending
  | submitted
  | live
  | partiallyFilled
  | filled
  | cancelled
  | denied
  | rejected
  | failed
deriving DecidableEq, Repr

namespace Side

/-- The sign a fill on this side moves a position by. -/
def sign : Side → Decimal
  | buy => 1
  | sell => -1

def value : Side → String
  | buy => "buy"
  | sell => "sell"

end Side

namespace OrderType

def value : OrderType → String
  | market => "market"
  | limit => "limit"

end OrderType

namespace TimeInForce

def value : TimeInForce → String
  | gtc => "gtc"
  | ioc => "ioc"

end TimeInForce

namespace OrderState

def value : OrderState → String
  | pending => "pending"
  | submitted => "submitted"
  | live => "live"
  | partiallyFilled => "partially_filled"
  | filled => "filled"
  | cancelled => "cancelled"
  | denied => "denied"
  | rejected => "rejected"
  | failed => "failed"

/-- `_LEGAL_TRANSITIONS`: the pairs `Order.apply` lets through. -/
def legalTransition : OrderState → OrderState → Bool
  | pending, submitted | pending, denied | pending, failed => true
  | submitted, live | submitted, partiallyFilled | submitted, filled
  | submitted, cancelled | submitted, rejected | submitted, failed => true
  | live, partiallyFilled | live, filled | live, cancelled | live, rejected => true
  | partiallyFilled, partiallyFilled | partiallyFilled, filled
  | partiallyFilled, cancelled => true
  | _, _ => false

/-- `_TERMINAL_STATES`. -/
def isTerminal : OrderState → Bool
  | filled | cancelled | denied | rejected | failed => true
  | pending | submitted | live | partiallyFilled => false

/-- `WORKING_STATES`: acked by the venue and still worked. -/
def isWorking : OrderState → Bool
  | live | partiallyFilled => true
  | _ => false

/-- No transition leaves a terminal state. -/
theorem legalTransition_of_isTerminal {s : OrderState} (terminal : s.isTerminal = true)
    (t : OrderState) : s.legalTransition t = false := by
  cases s <;> first | (cases t <;> rfl) | cases terminal

/-- No transition enters `PENDING`. -/
theorem legalTransition_pending (s : OrderState) : s.legalTransition .pending = false := by
  cases s <;> rfl

end OrderState

/-! ## Identity -/

/-- The stored name of the unattributed partition (`UNATTRIBUTED`). -/
def unattributed : String := "__unattributed__"

/-- The strategy id operator orders carry (`OPERATOR`). -/
def operatorName : String := "__operator__"

/-- A strategy id a run may declare: never the stored name of the unattributed
partition. -/
structure StrategyId where
  id : String
  declarable : id ≠ unattributed
deriving DecidableEq

/-- The operator's own id. -/
def operator : StrategyId := ⟨operatorName, by decide⟩

/-- The owner of a partition; `none` is the unattributed one. -/
abbrev Owner := Option StrategyId

namespace Owner

/-- The owner as a position row stores it. -/
def stored : Owner → String
  | none => unattributed
  | some s => s.id

/-- The owner a stored name stands for. -/
def ofStored (name : String) : Owner :=
  if h : name = unattributed then none else some ⟨name, h⟩

@[simp] theorem ofStored_stored (owner : Owner) : ofStored (stored owner) = owner := by
  cases owner with
  | none => simp [ofStored, stored]
  | some s => simp [ofStored, stored, s.declarable]

theorem stored_injective : Function.Injective stored :=
  Function.LeftInverse.injective ofStored_stored

end Owner

/-- The structured form of a `signal_id`: `{strategy_id}:{symbol}:{seq}`. -/
structure SignalId where
  strategyId : StrategyId
  symbol : Symbol
  seq : ℕ
deriving DecidableEq

/-- The dedup keys, one constructor for each format string. -/
inductive EventId
  /-- `{cloid}:{state}` -/
  | state (cloid : Cloid) (state : OrderState)
  /-- `{cloid}:fill:{trade_id}` -/
  | fill (cloid : Cloid) (tradeId : String)
  /-- `{event_id}:{owner}`, one partition's piece of a flatten fill -/
  | piece (cloid : Cloid) (tradeId : String) (owner : String)
  /-- `reconcile:{symbol}:{ts_ns}` -/
  | reconcile (symbol : Symbol) (tsNs : Nanos)
  /-- `leftover:{symbol}:{ts_ns}:{owner}` -/
  | leftover (symbol : Symbol) (tsNs : Nanos) (owner : String)
deriving DecidableEq, Repr

namespace EventId

/-- Whether the id starts with `{cloid}:fill:`. -/
def isFillOf (cloid : Cloid) : EventId → Bool
  | fill c _ => c == cloid
  | _ => false

end EventId

/-! ## Canonical order events -/

/-- What a canonical order event records. -/
inductive OrderEventFamily
  | placed
  | submitted
  | live
  | denied (reason : String)
  | rejected (reason : String)
  | failed (reason : String)
  | cancelled
  /-- `OrderFilled` when `complete`, else `OrderPartiallyFilled`. -/
  | fill (complete : Bool) (tradeId : String) (quantity price cumQty fee : Decimal)
deriving DecidableEq

/-- A canonical saga transition, published by the `ExecutionManager`. -/
structure OrderEvent where
  tsEvent : Nanos
  tsInit : Nanos
  cloid : Cloid
  strategyId : StrategyId
  signalId : SignalId
  symbol : Symbol
  venueOid : Option String := none
  reconciliation : Bool := false
  family : OrderEventFamily
deriving DecidableEq

namespace OrderEventFamily

/-- The saga state the event records entry into. -/
def state : OrderEventFamily → OrderState
  | placed => .pending
  | submitted => .submitted
  | live => .live
  | denied _ => .denied
  | rejected _ => .rejected
  | failed _ => .failed
  | cancelled => .cancelled
  | fill complete .. => if complete then .filled else .partiallyFilled

end OrderEventFamily

namespace OrderEvent

def state (event : OrderEvent) : OrderState := event.family.state

/-- A fill is keyed by its trade, every other transition by the state it enters. -/
def eventId (event : OrderEvent) : EventId :=
  match event.family with
  | .fill _ tradeId .. => .fill event.cloid tradeId
  | family => .state event.cloid family.state

end OrderEvent

/-! ## Venue facts -/

/-- A raw status fact. -/
structure OrderStatusReport where
  cloid : Cloid
  symbol : Symbol
  status : OrderState
  venueOid : Option String := none
  reason : Option String := none
  reconciliation : Bool := false
  tsEvent : Nanos := 0
deriving DecidableEq

/-- A raw fill fact. -/
structure FillReport where
  cloid : Cloid
  symbol : Symbol
  tradeId : String
  quantity : Decimal
  price : Decimal
  fee : Decimal := 0
  reconciliation : Bool := false
  tsEvent : Nanos := 0
deriving DecidableEq

/-- A raw venue fact, as an `Exchange` publishes it.  `refused` moves no saga. -/
inductive ExecutionReport
  | status (report : OrderStatusReport)
  | fill (report : FillReport)
  | refused (cloid : Cloid) (symbol : Symbol)
deriving DecidableEq

end Tickwright.Domain
