/-
# Domain.Order -- one order's saga, advanced by `apply`

`Order.apply` is the sole authority for transition legality and for dedup, and
`Order.recordFill` is the single home for fill accounting.  Both are stated once
here as what they can do (`apply_cases`, `recordFill_cases`); every later
argument about a saga reads those two and never unfolds the functions.

* an event already reflected leaves the order alone, an illegal one raises
  before anything is written, and any other one enters the event's state and
  files its id (`apply_cases`);
* a terminal saga takes no new event at all (`apply_of_isTerminal`);
* the cumulative quantity is a plain sum, and a fill completes the order exactly
  when that sum reaches its quantity (`recordFill_cases`);
* cancel intent is a marker, not a state: the three verbs that set it move
  neither state, quantity nor dedup set (`requestCancel_cases`, `SameSaga`).
-/
import Tickwright.Domain.Vocabulary
import Mathlib.Data.Finset.Card

namespace Tickwright.Domain

set_option autoImplicit false

/-- A broken engine assumption: the run faults.  Each constructor holds what its
message names. -/
inductive InvariantViolation
  /-- `illegal saga transition {from} -> {to} for cloid {cloid}` -/
  | illegalTransition (source target : OrderState) (cloid : Cloid)
  /-- `fill {trade_id} for order {cloid} has non-positive quantity {quantity}` -/
  | nonPositiveOrderFill (tradeId : String) (cloid : Cloid) (quantity : Decimal)
  /-- `fill {event_id} for {owner}, {symbol} applied to position {owner}, {symbol}` -/
  | misroutedFill (eventId : EventId) (owner : Owner) (symbol : Symbol)
      (held : Owner) (heldSymbol : Symbol)
  /-- `fill {event_id} has non-positive quantity {quantity}` -/
  | nonPositiveFill (eventId : EventId) (quantity : Decimal)
  /-- `no InstrumentSpec for {symbol}; a flatten fill needs its lot size` -/
  | noInstrumentSpec (symbol : Symbol)
  /-- `no InstrumentSpec wired for symbol {symbol}`, from the guard -/
  | noSpecWired (symbol : Symbol)
  /-- `flatten fill {event_id} of {quantity} moves no partition` -/
  | movesNoPartition (eventId : EventId) (quantity : Decimal)
  /-- `ledger write refused: the account row is not open yet` -/
  | ledgerNotOpen
  /-- `time in force is not set` / `limit price is not set`, from `place_order_of` -/
  | unplaceable (cloid : Cloid)
  /-- `fill for {cloid} that is not resting on the book` -/
  | notResting (cloid : Cloid)
  /-- `order {cloid} to rebuild is not a LIMIT` -/
  | rebuildsNoLimit (cloid : Cloid)
  /-- `row for {row.symbol} passed to the view of position {owner}, {symbol}` -/
  | rowOfAnother (row : Symbol) (owner : Owner) (symbol : Symbol)
deriving DecidableEq

/-- One order's saga state, keyed by `cloid`. -/
structure Order where
  cloid : Cloid
  strategyId : StrategyId
  signalId : SignalId
  symbol : Symbol
  side : Side
  quantity : Decimal
  orderType : OrderType
  state : OrderState := .pending
  cumQty : Decimal := 0
  venueOid : Option String := none
  ackedTsNs : Option Nanos := none
  createdTsNs : Option Nanos := none
  reason : Option String := none
  cancelRequested : Bool := false
  cancelRequestedTs : Option Nanos := none
  cancelSignalId : Option SignalId := none
  splitBasis : Option (List (String × Decimal)) := none
  price : Option Decimal := none
  timeInForce : Option TimeInForce := none
  postOnly : Bool := false
  reduceOnly : Bool := false
  appliedEventIds : Finset EventId := ∅
deriving DecidableEq

namespace Order

def isTerminal (order : Order) : Bool := order.state.isTerminal

/-- How many fills the saga has booked. -/
def fillCount (order : Order) : ℕ :=
  (order.appliedEventIds.filter fun id => id.isFillOf order.cloid).card

/-! ## Advancing the saga -/

/-- The fields an accepted event writes. -/
def enter (order : Order) (event : OrderEvent) : Order :=
  { order with
    state := event.state
    venueOid := event.venueOid.or order.venueOid
    ackedTsNs := if event.state = .live then some event.tsEvent else order.ackedTsNs
    cumQty := match event.family with
      | .fill _ _ _ _ cumQty _ => cumQty
      | _ => order.cumQty
    reason := match event.family with
      | .denied reason | .rejected reason | .failed reason => some reason
      | _ => order.reason
    appliedEventIds := insert event.eventId order.appliedEventIds }

/-- Advance the saga by `event`.  `none` is the deduped no-op. -/
def apply (order : Order) (event : OrderEvent) : Except InvariantViolation (Option Order) :=
  if event.eventId ∈ order.appliedEventIds then
    .ok none
  else if order.state.legalTransition event.state then
    .ok (some (order.enter event))
  else
    .error (.illegalTransition order.state event.state order.cloid)

/-- The canonical event a raw fill becomes on this order. -/
def fillEvent (order : Order) (tradeId : String) (quantity price fee : Decimal)
    (tsEvent tsInit : Nanos) (reconciliation : Bool) : OrderEvent where
  tsEvent := tsEvent
  tsInit := tsInit
  cloid := order.cloid
  strategyId := order.strategyId
  signalId := order.signalId
  symbol := order.symbol
  venueOid := order.venueOid
  reconciliation := reconciliation
  family := .fill (decide (order.quantity ≤ order.cumQty + quantity)) tradeId quantity price
    (order.cumQty + quantity) fee

/-- Account a raw fill.  `none` is a redelivered trade; otherwise the advanced
order beside the event to publish.  The total is exact here: `recordFillInPlace_exact`
says where the source's is too. -/
def recordFill (order : Order) (tradeId : String) (quantity price fee : Decimal)
    (tsEvent tsInit : Nanos) (reconciliation : Bool) :
    Except InvariantViolation (Option (Order × OrderEvent)) :=
  if quantity ≤ 0 then
    .error (.nonPositiveOrderFill tradeId order.cloid quantity)
  else
    let event := order.fillEvent tradeId quantity price fee tsEvent tsInit reconciliation
    (order.apply event).map fun applied => applied.map fun advanced => (advanced, event)

/-! ## Cancel intent -/

/-- Record cancel intent; `none` when the call is a no-op. -/
def requestCancel (order : Order) (signalId : SignalId) (tsNs : Nanos) : Option Order :=
  if order.isTerminal || order.cancelRequested then
    none
  else
    some { order with
      cancelRequested := true
      cancelRequestedTs := some tsNs
      cancelSignalId := some signalId }

/-- Record a strategy's cancel all; `none` when it does not reach this order. -/
def requestCancelAll (order : Order) (signalId : SignalId) (tsNs : Nanos) : Option Order :=
  if order.isTerminal then
    none
  else if signalId.seq ≤ order.signalId.seq then
    none
  else if order.cancelSignalId.any fun earlier => signalId.seq ≤ earlier.seq then
    none
  else
    some { order with
      cancelRequested := true
      cancelRequestedTs := order.cancelRequestedTs.or (some tsNs)
      cancelSignalId := some signalId }

/-- Record the operator's cancel all.  It consumes no strategy seq. -/
def markOperatorCancel (order : Order) (tsNs : Nanos) : Order :=
  if order.isTerminal then
    order
  else
    { order with
      cancelRequested := true
      cancelRequestedTs := order.cancelRequestedTs.or (some tsNs) }

/-! ## What a transition can do -/

/-- **One event does one of three things**: it is already reflected, it is
illegal and writes nothing, or it is new and legal and the order enters it. -/
theorem apply_cases (order : Order) (event : OrderEvent) :
    (event.eventId ∈ order.appliedEventIds ∧ order.apply event = .ok none) ∨
    (event.eventId ∉ order.appliedEventIds ∧
      order.state.legalTransition event.state = false ∧
      order.apply event =
        .error (.illegalTransition order.state event.state order.cloid)) ∨
    (event.eventId ∉ order.appliedEventIds ∧
      order.state.legalTransition event.state = true ∧
      order.apply event = .ok (some (order.enter event))) := by
  by_cases seen : event.eventId ∈ order.appliedEventIds
  · exact Or.inl ⟨seen, by simp only [apply, if_pos seen]⟩
  · cases legal : order.state.legalTransition event.state with
    | false =>
        exact Or.inr (Or.inl ⟨seen, rfl, by simp only [apply, if_neg seen, legal]; rfl⟩)
    | true =>
        exact Or.inr (Or.inr ⟨seen, rfl, by simp only [apply, if_neg seen, legal, if_true]⟩)

theorem apply_eq_some {order advanced : Order} {event : OrderEvent}
    (applied : order.apply event = .ok (some advanced)) :
    event.eventId ∉ order.appliedEventIds ∧
      order.state.legalTransition event.state = true ∧ advanced = order.enter event := by
  rcases order.apply_cases event with ⟨_, h⟩ | ⟨_, _, h⟩ | ⟨fresh, legal, h⟩
  · rw [h] at applied; cases applied
  · rw [h] at applied; cases applied
  · rw [h] at applied
    cases applied
    exact ⟨fresh, legal, rfl⟩

/-- A terminal saga takes no new event. -/
theorem apply_of_isTerminal {order advanced : Order} {event : OrderEvent}
    (terminal : order.isTerminal = true) : order.apply event ≠ .ok (some advanced) := by
  intro applied
  have legal := (apply_eq_some applied).2.1
  rw [OrderState.legalTransition_of_isTerminal terminal] at legal
  cases legal

@[simp] theorem enter_cloid (order : Order) (event : OrderEvent) :
    (order.enter event).cloid = order.cloid := rfl

@[simp] theorem enter_state (order : Order) (event : OrderEvent) :
    (order.enter event).state = event.state := rfl

@[simp] theorem enter_appliedEventIds (order : Order) (event : OrderEvent) :
    (order.enter event).appliedEventIds = insert event.eventId order.appliedEventIds := rfl

@[simp] theorem enter_quantity (order : Order) (event : OrderEvent) :
    (order.enter event).quantity = order.quantity := rfl

@[simp] theorem enter_side (order : Order) (event : OrderEvent) :
    (order.enter event).side = order.side := rfl

@[simp] theorem fillEvent_eventId (order : Order) (tradeId : String)
    (quantity price fee : Decimal) (tsEvent tsInit : Nanos) (reconciliation : Bool) :
    (order.fillEvent tradeId quantity price fee tsEvent tsInit reconciliation).eventId =
      .fill order.cloid tradeId := rfl

theorem fillEvent_state (order : Order) (tradeId : String)
    (quantity price fee : Decimal) (tsEvent tsInit : Nanos) (reconciliation : Bool) :
    (order.fillEvent tradeId quantity price fee tsEvent tsInit reconciliation).state =
      if order.quantity ≤ order.cumQty + quantity then .filled else .partiallyFilled := by
  simp [fillEvent, OrderEvent.state, OrderEventFamily.state]

/-- **What recording a fill can do.**  A trade already booked is a no-op; an
accepted one has a positive quantity, is legal, and leaves the order entered at
the fill's own event. -/
theorem recordFill_cases {order : Order} {tradeId : String} {quantity price fee : Decimal}
    {tsEvent tsInit : Nanos} {reconciliation : Bool} {result : Option (Order × OrderEvent)}
    (recorded : order.recordFill tradeId quantity price fee tsEvent tsInit reconciliation =
      .ok result) :
    0 < quantity ∧
    ((result = none ∧ EventId.fill order.cloid tradeId ∈ order.appliedEventIds) ∨
     (∃ event, event = order.fillEvent tradeId quantity price fee tsEvent tsInit reconciliation ∧
        EventId.fill order.cloid tradeId ∉ order.appliedEventIds ∧
        order.state.legalTransition event.state = true ∧
        result = some (order.enter event, event))) := by
  simp only [recordFill] at recorded
  split at recorded
  · cases recorded
  · rename_i positive
    refine ⟨not_le.mp positive, ?_⟩
    rcases order.apply_cases
        (order.fillEvent tradeId quantity price fee tsEvent tsInit reconciliation) with
      ⟨seen, h⟩ | ⟨_, _, h⟩ | ⟨fresh, legal, h⟩
    · rw [h] at recorded
      cases recorded
      exact Or.inl ⟨rfl, seen⟩
    · rw [h] at recorded; cases recorded
    · rw [h] at recorded
      cases recorded
      exact Or.inr ⟨_, rfl, fresh, legal, rfl⟩

/-! ## The marker is not a state -/

/-- Everything a transition reads or writes is the same in both. -/
structure SameSaga (order marked : Order) : Prop where
  cloid : marked.cloid = order.cloid
  state : marked.state = order.state
  cumQty : marked.cumQty = order.cumQty
  quantity : marked.quantity = order.quantity
  venueOid : marked.venueOid = order.venueOid
  appliedEventIds : marked.appliedEventIds = order.appliedEventIds
  terms : (marked.strategyId, marked.signalId, marked.symbol, marked.side, marked.orderType,
      marked.splitBasis, marked.price, marked.timeInForce, marked.postOnly, marked.reduceOnly) =
    (order.strategyId, order.signalId, order.symbol, order.side, order.orderType,
      order.splitBasis, order.price, order.timeInForce, order.postOnly, order.reduceOnly)

theorem requestCancel_sameSaga {order marked : Order} {signalId : SignalId} {tsNs : Nanos}
    (requested : order.requestCancel signalId tsNs = some marked) : SameSaga order marked := by
  simp only [requestCancel] at requested
  split at requested
  · cases requested
  · cases requested
    constructor <;> rfl

theorem requestCancelAll_sameSaga {order marked : Order} {signalId : SignalId} {tsNs : Nanos}
    (requested : order.requestCancelAll signalId tsNs = some marked) :
    SameSaga order marked := by
  simp only [requestCancelAll] at requested
  split at requested
  · cases requested
  · split at requested
    · cases requested
    · split at requested
      · cases requested
      · cases requested
        constructor <;> rfl

theorem markOperatorCancel_sameSaga (order : Order) (tsNs : Nanos) :
    SameSaga order (order.markOperatorCancel tsNs) := by
  simp only [markOperatorCancel]
  split
  · constructor <;> rfl
  · constructor <;> rfl

end Order

end Tickwright.Domain
