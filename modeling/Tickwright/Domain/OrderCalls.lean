/-
# Domain.OrderCalls -- one saga over any calls

`apply` and `record_fill` write one object field by field, and a caller may go on
using it after either raised.  `applyInPlace` and `recordFillInPlace` are those
writes in the source's order, over a state that an error leaves as it is by then.
`applyInPlace_run` and `recordFillInPlace_run` say no write comes before a check:
where they raise or do nothing, the order is the one they were called on.

A total is what the source's addition makes of it (`totalWith`).  Where that sum fits
its 28 digits, the call is `Order.recordFill` (`recordFillInPlace_exact`).

Over any sequence of calls on a new order, what is booked and the state fit
together at every moment (`Fits`, `InShape`, `order_saga_invariant`).  The total of a
saga is the running one, and it can reach a quantity the exact sum does not
(`Sample.thirds_overfill`).
-/
import Tickwright.Domain.Order
import Mathlib.Algebra.BigOperators.Group.List.Basic
import Mathlib.Data.List.Induction
import Mathlib.Tactic.Linarith

namespace Tickwright.Domain

open Tickwright.Theory

set_option autoImplicit false

namespace Order

/-! ## The writes, in order -/

/-- `apply`, on the order itself.  Whether the event advanced it. -/
def applyInPlace (event : OrderEvent) : EStateM InvariantViolation Order Bool := do
  let order ← get
  if event.eventId ∈ order.appliedEventIds then
    return false
  if order.state.legalTransition event.state = false then
    throw (.illegalTransition order.state event.state order.cloid)
  modify fun order => { order with state := event.state }
  modify fun order => { order with venueOid := event.venueOid.or order.venueOid }
  if event.state = .live then
    modify fun order => { order with ackedTsNs := some event.tsEvent }
  match event.family with
  | .fill _ _ _ _ cumQty _ => modify fun order => { order with cumQty := cumQty }
  | .denied reason | .rejected reason | .failed reason =>
      modify fun order => { order with reason := some reason }
  | .placed | .submitted | .live | .cancelled => pure ()
  modify fun order =>
    { order with appliedEventIds := insert event.eventId order.appliedEventIds }
  return true

/-- `self.cum_qty + quantity`. -/
def totalWith (order : Order) (quantity : Decimal) : Decimal := rounded (order.cumQty + quantity)

/-- `fillEvent` at that total. -/
def totalledEvent (order : Order) (tradeId : String) (quantity price fee : Decimal)
    (tsEvent tsInit : Nanos) (reconciliation : Bool) : OrderEvent :=
  { order.fillEvent tradeId quantity price fee tsEvent tsInit reconciliation with
    family := .fill (decide (order.quantity ≤ order.totalWith quantity)) tradeId quantity price
      (order.totalWith quantity) fee }

/-- `record_fill`, on the order itself: the event to publish, or `none`. -/
def recordFillInPlace (tradeId : String) (quantity price fee : Decimal) (tsEvent tsInit : Nanos)
    (reconciliation : Bool) : EStateM InvariantViolation Order (Option OrderEvent) := do
  let order ← get
  if quantity ≤ 0 then
    throw (.nonPositiveOrderFill tradeId order.cloid quantity)
  let event := order.totalledEvent tradeId quantity price fee tsEvent tsInit reconciliation
  if ← applyInPlace event then
    return some event
  else
    return none

theorem get_run (order : Order) :
    (EStateM.get : EStateM InvariantViolation Order Order) order = .ok order order := rfl

/-- **No write of `apply` comes before its checks.** -/
theorem applyInPlace_run (order : Order) (event : OrderEvent) :
    (applyInPlace event).run order =
      match order.apply event with
      | .error violation => .error violation order
      | .ok none => .ok false order
      | .ok (some advanced) => .ok true advanced := by
  rcases order.apply_cases event with ⟨seen, is⟩ | ⟨fresh, illegal, is⟩ | ⟨fresh, legal, is⟩
  · rw [is]
    simp only [applyInPlace, EStateM.run, bind, EStateM.bind, get, getThe, MonadStateOf.get,
      get_run, if_pos seen]
    rfl
  · rw [is]
    simp only [applyInPlace, EStateM.run, bind, EStateM.bind, get, getThe, MonadStateOf.get,
      get_run, if_neg fresh, illegal, if_true]
    rfl
  · rw [is]
    simp only [applyInPlace, EStateM.run, bind, EStateM.bind, get, getThe, MonadStateOf.get,
      get_run, if_neg fresh, legal, Bool.true_eq_false, if_false]
    by_cases acked : event.state = .live
    · cases family : event.family <;>
        simp only [enter, acked, family, if_true] <;> rfl
    · cases family : event.family <;>
        simp only [enter, if_neg acked, family] <;> rfl

/-- **Nor does one of `record_fill`.** -/
theorem recordFillInPlace_run (order : Order) (tradeId : String) (quantity price fee : Decimal)
    (tsEvent tsInit : Nanos) (reconciliation : Bool) :
    (recordFillInPlace tradeId quantity price fee tsEvent tsInit reconciliation).run order =
      if quantity ≤ 0 then .error (.nonPositiveOrderFill tradeId order.cloid quantity) order
      else
        match order.apply
          (order.totalledEvent tradeId quantity price fee tsEvent tsInit reconciliation) with
        | .error violation => .error violation order
        | .ok none => .ok none order
        | .ok (some advanced) => .ok (some
            (order.totalledEvent tradeId quantity price fee tsEvent tsInit reconciliation))
            advanced := by
  simp only [recordFillInPlace, EStateM.run, bind, EStateM.bind, get, getThe,
    MonadStateOf.get, get_run]
  by_cases moves : quantity ≤ 0
  · simp only [if_pos moves]
    rfl
  · simp only [if_neg moves]
    have applied := applyInPlace_run order
      (order.totalledEvent tradeId quantity price fee tsEvent tsInit reconciliation)
    simp only [EStateM.run] at applied
    simp only [pure, EStateM.bind, applied]
    cases order.apply
        (order.totalledEvent tradeId quantity price fee tsEvent tsInit reconciliation) with
    | error violation => rfl
    | ok result =>
        cases result with
        | none => rfl
        | some advanced => rfl

/-- **Where the sum keeps all its digits, the call is `recordFill`.** -/
theorem recordFillInPlace_exact {order : Order} {tradeId : String} {quantity price fee : Decimal}
    {tsEvent tsInit : Nanos} {reconciliation : Bool}
    (exact : order.totalWith quantity = order.cumQty + quantity) :
    (recordFillInPlace tradeId quantity price fee tsEvent tsInit reconciliation).run order =
      match order.recordFill tradeId quantity price fee tsEvent tsInit reconciliation with
      | .error violation => .error violation order
      | .ok none => .ok none order
      | .ok (some (advanced, event)) => .ok (some event) advanced := by
  have event : order.totalledEvent tradeId quantity price fee tsEvent tsInit reconciliation =
      order.fillEvent tradeId quantity price fee tsEvent tsInit reconciliation := by
    simp only [totalledEvent, exact, fillEvent]
  rw [recordFillInPlace_run, event]
  simp only [recordFill]
  by_cases moves : quantity ≤ 0
  · simp only [if_pos moves]
  · simp only [if_neg moves]
    cases order.apply
        (order.fillEvent tradeId quantity price fee tsEvent tsInit reconciliation) with
    | error violation => rfl
    | ok result =>
        cases result with
        | none => rfl
        | some advanced => rfl

end Order

/-- Whether an event records a status. -/
def OrderEvent.isStatus (event : OrderEvent) : Bool :=
  match event.family with
  | .fill .. => false
  | .placed | .submitted | .live | .denied _ | .rejected _ | .failed _ | .cancelled => true

/-- One call on an order. -/
inductive OrderCall
  | recordFill (tradeId : String) (quantity price fee : Decimal) (tsEvent tsInit : Nanos)
      (reconciliation : Bool)
  | apply (event : OrderEvent) (status : event.isStatus = true)

/-- Whether a call moved the order: it neither raised nor was deduped. -/
def OrderCall.moves (order : Order) : OrderCall → Bool
  | .recordFill tradeId quantity price fee tsEvent tsInit reconciliation =>
      match (Order.recordFillInPlace tradeId quantity price fee tsEvent tsInit
          reconciliation).run order with
      | .ok (some _) _ => true
      | .ok none _ | .error _ _ => false
  | .apply event _ =>
      match (Order.applyInPlace event).run order with
      | .ok moved _ => moved
      | .error _ _ => false

/-- An order beside the trades booked on it, oldest first. -/
structure Booking where
  order : Order
  booked : List (String × Decimal) := []

namespace Booking

/-- One call.  An error leaves the order as the call left it. -/
def call (booking : Booking) : OrderCall → Booking
  | .recordFill tradeId quantity price fee tsEvent tsInit reconciliation =>
      match (Order.recordFillInPlace tradeId quantity price fee tsEvent tsInit
          reconciliation).run booking.order with
      | .ok (some _) after => ⟨after, booking.booked ++ [(tradeId, quantity)]⟩
      | .ok none after | .error _ after => { booking with order := after }
  | .apply event _ =>
      match (Order.applyInPlace event).run booking.order with
      | .ok _ after | .error _ after => { booking with order := after }

/-- **What one call can do**: leave everything, enter a status, or book a new trade
of a positive size. -/
theorem call_cases (booking : Booking) (call : OrderCall) :
    (call.moves booking.order = false ∧ booking.call call = booking) ∨
    (call.moves booking.order = true ∧ ∃ event, event.isStatus = true ∧
      event.eventId ∉ booking.order.appliedEventIds ∧
      booking.order.state.legalTransition event.state = true ∧
      booking.call call = { booking with order := booking.order.enter event }) ∨
    (call.moves booking.order = true ∧ ∃ tradeId quantity event, 0 < quantity ∧
      EventId.fill booking.order.cloid tradeId ∉ booking.order.appliedEventIds ∧
      event.eventId = EventId.fill booking.order.cloid tradeId ∧
      event.state = (if booking.order.quantity ≤ booking.order.totalWith quantity then .filled
        else .partiallyFilled) ∧
      booking.order.state.legalTransition event.state = true ∧
      (booking.order.enter event).cumQty = booking.order.totalWith quantity ∧
      booking.call call =
        ⟨booking.order.enter event, booking.booked ++ [(tradeId, quantity)]⟩) := by
  obtain ⟨order, booked⟩ := booking
  cases call with
  | apply event status =>
      simp only [Booking.call, OrderCall.moves, Order.applyInPlace_run]
      rcases order.apply_cases event with ⟨_, is⟩ | ⟨_, _, is⟩ | ⟨fresh, legal, is⟩
      · rw [is]
        exact Or.inl ⟨rfl, rfl⟩
      · rw [is]
        exact Or.inl ⟨rfl, rfl⟩
      · rw [is]
        exact Or.inr (Or.inl ⟨rfl, event, status, fresh, legal, rfl⟩)
  | recordFill tradeId quantity price fee tsEvent tsInit reconciliation =>
      simp only [Booking.call, OrderCall.moves, Order.recordFillInPlace_run]
      by_cases moves : quantity ≤ 0
      · rw [if_pos moves]
        exact Or.inl ⟨rfl, rfl⟩
      · rw [if_neg moves]
        rcases order.apply_cases (order.totalledEvent tradeId quantity price fee tsEvent tsInit
            reconciliation) with ⟨_, is⟩ | ⟨_, _, is⟩ | ⟨fresh, legal, is⟩
        · rw [is]
          exact Or.inl ⟨rfl, rfl⟩
        · rw [is]
          exact Or.inl ⟨rfl, rfl⟩
        · rw [is]
          refine Or.inr (Or.inr
            ⟨rfl, tradeId, quantity, _, not_le.mp moves, fresh, rfl, ?_, legal, rfl, rfl⟩)
          simp [Order.totalledEvent, OrderEvent.state, OrderEventFamily.state]

end Booking

/-! ## The invariant -/

/-- How the state of an order and what is booked of it fit together. -/
def InShape (quantity cumQty : Decimal) : OrderState → Prop
  | .pending | .submitted | .live | .denied | .rejected | .failed => cumQty = 0
  | .partiallyFilled => 0 < cumQty ∧ cumQty < quantity
  | .cancelled => 0 ≤ cumQty ∧ cumQty < quantity
  | .filled => quantity ≤ cumQty

variable {quantity cumQty : Decimal}

theorem InShape.filled_iff {state : OrderState} (positive : 0 < quantity)
    (shape : InShape quantity cumQty state) : state = .filled ↔ quantity ≤ cumQty := by
  cases state <;> simp only [InShape] at shape <;> simp <;> linarith

/-- A status that may be entered keeps the shape. -/
theorem InShape.status {source target : OrderState} (positive : 0 < quantity)
    (shape : InShape quantity cumQty source) (legal : source.legalTransition target = true)
    (noFill : target ≠ .partiallyFilled ∧ target ≠ .filled) : InShape quantity cumQty target := by
  revert legal noFill shape
  cases source <;> cases target <;>
    simp only [InShape, OrderState.legalTransition] <;> intros <;>
    first
    | contradiction
    | (simp_all; done)
    | (constructor <;> linarith)

/-- An order that may take a fill has booked nothing, or something. -/
theorem InShape.nonneg {source : OrderState} {whole : Prop} [Decidable whole]
    (shape : InShape quantity cumQty source)
    (legal : source.legalTransition (if whole then .filled else .partiallyFilled) = true) :
    0 ≤ cumQty := by
  revert legal shape
  split <;> cases source <;> simp only [InShape, OrderState.legalTransition] <;> intros <;>
    first
    | contradiction
    | linarith

/-- A fill that leaves a total keeps the shape. -/
theorem InShape.fill {total : Decimal} (positive : 0 < total) :
    InShape quantity total (if quantity ≤ total then .filled else .partiallyFilled) := by
  split
  · rename_i whole
    exact whole
  · rename_i short
    exact ⟨positive, not_le.mp short⟩

/-! ## The running total -/

/-- The sizes added one after the other, as the source adds. -/
def runningTotal (sizes : List Decimal) : Decimal :=
  sizes.foldl (fun total size => rounded (total + size)) 0

theorem runningTotal_append (sizes : List Decimal) (size : Decimal) :
    runningTotal (sizes ++ [size]) = rounded (runningTotal sizes + size) := by
  rw [runningTotal, List.foldl_append]
  rfl

/-- **A running total is the exact sum, where every sum on the way keeps its digits.** -/
theorem runningTotal_exact {sizes : List Decimal}
    (fit : ∀ part, part <+: sizes → Representable part.sum) :
    runningTotal sizes = sizes.sum := by
  induction sizes using List.reverseRecOn with
  | nil => rfl
  | append_singleton rest size ih =>
      have before := ih fun part on => fit part (on.trans (List.prefix_append _ _))
      have whole := fit _ (List.prefix_refl _)
      rw [runningTotal_append, before]
      rw [List.sum_append, List.sum_singleton] at whole ⊢
      exact rounded_of_representable whole

/-- Everything the calls keep true of an order and its trades. -/
structure Fits (cloid : Cloid) (quantity : Decimal) (booking : Booking) : Prop where
  named : booking.order.cloid = cloid
  sized : booking.order.quantity = quantity
  once : (booking.booked.map Prod.fst).Nodup
  listed : ∀ trade, EventId.fill cloid trade ∈ booking.order.appliedEventIds ↔
    trade ∈ booking.booked.map Prod.fst
  total : booking.order.cumQty = runningTotal (booking.booked.map Prod.snd)
  shape : InShape quantity booking.order.cumQty booking.order.state

theorem status_eventId {event : OrderEvent} (status : event.isStatus = true) :
    event.eventId = .state event.cloid event.state ∧ event.state ≠ .partiallyFilled ∧
      event.state ≠ .filled := by
  cases family : event.family <;>
    simp_all [OrderEvent.isStatus, OrderEvent.eventId, OrderEvent.state, OrderEventFamily.state]

/-- **One call keeps it.** -/
theorem Fits.call {cloid : Cloid} {booking : Booking} (positive : 0 < quantity)
    (fits : Fits cloid quantity booking) (call : OrderCall) :
    Fits cloid quantity (booking.call call) := by
  rcases booking.call_cases call with ⟨_, is⟩ | ⟨_, event, status, fresh, legal, is⟩ |
    ⟨_, trade, size, event, moves, fresh, id, state, legal, cum, is⟩
  · rw [is]
    exact fits
  · rw [is]
    obtain ⟨id, noFill⟩ := status_eventId status
    have cum : (booking.order.enter event).cumQty = booking.order.cumQty := by
      cases family : event.family <;>
        simp_all [Order.enter, OrderEvent.isStatus]
    refine ⟨fits.named, fits.sized, fits.once, fun trade => ?_, ?_, ?_⟩
    · rw [Order.enter_appliedEventIds, Finset.mem_insert, id, fits.listed]
      simp
    · rw [cum]
      exact fits.total
    · rw [cum]
      exact fits.shape.status positive legal noFill
  · rw [is]
    rw [fits.named] at fresh id
    rw [fits.sized] at state
    rw [state] at legal
    have booked : 0 < booking.order.totalWith size :=
      rounded_pos (add_pos_of_nonneg_of_pos (fits.shape.nonneg legal) moves)
    refine ⟨fits.named, fits.sized, ?_, fun other => ?_, ?_, ?_⟩
    · rw [List.map_append, List.nodup_append]
      refine ⟨fits.once, List.nodup_singleton _, fun a member b new => ?_⟩
      rintro rfl
      rw [List.map_singleton, List.mem_singleton] at new
      subst new
      exact fresh ((fits.listed _).mpr member)
    · rw [Order.enter_appliedEventIds, Finset.mem_insert, id, fits.listed, List.map_append,
        List.mem_append, List.map_singleton, List.mem_singleton]
      simp only [EventId.fill.injEq, true_and]
      exact or_comm
    · rw [cum, List.map_append, List.map_singleton, runningTotal_append, ← fits.total]
      rfl
    · rw [cum, Order.enter_state, state]
      exact InShape.fill booked

/-- A terminal order takes no call. -/
theorem call_of_isTerminal {booking : Booking} (terminal : booking.order.isTerminal = true)
    (call : OrderCall) : (booking.call call).order = booking.order := by
  rcases booking.call_cases call with ⟨_, is⟩ | ⟨_, event, _, _, legal, _⟩ |
    ⟨_, _, _, event, _, _, _, _, legal, _⟩
  · rw [is]
  · rw [OrderState.legalTransition_of_isTerminal terminal] at legal
    cases legal
  · rw [OrderState.legalTransition_of_isTerminal terminal] at legal
    cases legal

theorem calls_of_isTerminal {booking : Booking} (terminal : booking.order.isTerminal = true)
    (more : List OrderCall) : (more.foldl Booking.call booking).order = booking.order := by
  induction more generalizing booking with
  | nil => rfl
  | cons call rest ih =>
      have stays := call_of_isTerminal terminal call
      rw [List.foldl_cons, ih (by rw [stays]; exact terminal), stays]

/-- **The order saga invariant.**  After any calls on a new order: what it has
booked is the running total over distinct trades, each counted once, and their exact
sum where no total on the way takes more than 28 digits; its state says where that
total lies, and `FILLED` exactly that it reached the quantity; a terminal order never
moves again; and a call that raises or is deduped leaves every field. -/
theorem order_saga_invariant {order : Order} (positive : 0 < order.quantity)
    (new : order.state = .pending ∧ order.cumQty = 0 ∧ order.appliedEventIds = ∅)
    (calls : List OrderCall) :
    let after := calls.foldl Booking.call { order := order }
    ((after.booked.map Prod.fst).Nodup ∧
      (∀ trade, EventId.fill order.cloid trade ∈ after.order.appliedEventIds ↔
        trade ∈ after.booked.map Prod.fst) ∧
      after.order.cumQty = runningTotal (after.booked.map Prod.snd) ∧
      ((∀ part, part <+: after.booked.map Prod.snd → Representable part.sum) →
        after.order.cumQty = (after.booked.map Prod.snd).sum)) ∧
    InShape order.quantity after.order.cumQty after.order.state ∧
    (after.order.state = .filled ↔ order.quantity ≤ after.order.cumQty) ∧
    (after.order.isTerminal = true → ∀ more : List OrderCall,
      (more.foldl Booking.call after).order.state = after.order.state ∧
      (more.foldl Booking.call after).order.cumQty = after.order.cumQty) ∧
    ∀ call, call.moves after.order = false → (after.call call).order = after.order := by
  intro after
  have fits : Fits order.cloid order.quantity after := by
    have begins : Fits order.cloid order.quantity { order := order } := by
      refine ⟨rfl, rfl, List.nodup_nil, fun trade => ?_, new.2.1, ?_⟩
      · rw [new.2.2]
        simp
      · rw [new.1]
        exact new.2.1
    have keeps : ∀ (calls : List OrderCall) (booking : Booking),
        Fits order.cloid order.quantity booking →
        Fits order.cloid order.quantity (calls.foldl Booking.call booking) := by
      intro calls
      induction calls with
      | nil => exact fun _ fits => fits
      | cons call rest ih => exact fun booking fits => ih _ (fits.call positive call)
    exact keeps calls _ begins
  refine ⟨⟨fits.once, fits.listed, fits.total, fun fit => ?_⟩, fits.shape,
    fits.shape.filled_iff positive, fun terminal more => ?_, fun call idle => ?_⟩
  · rw [fits.total]
    exact runningTotal_exact fit
  · rw [calls_of_isTerminal terminal more]
    exact ⟨rfl, rfl⟩
  · rcases after.call_cases call with ⟨_, is⟩ | ⟨moved, _⟩ | ⟨moved, _⟩
    · rw [is]
    · rw [idle] at moved
      cases moved
    · rw [idle] at moved
      cases moved

namespace Sample

/-- A new order of 10. -/
def newTen : Order where
  cloid := "0xten"
  strategyId := operator
  signalId := ⟨operator, "BTC", 1⟩
  symbol := "BTC"
  side := .buy
  quantity := 10
  orderType := .market

def sentTen : OrderEvent where
  tsEvent := 1
  tsInit := 1
  cloid := "0xten"
  strategyId := operator
  signalId := ⟨operator, "BTC", 1⟩
  symbol := "BTC"
  family := .submitted

/-- A fill of 4, the same trade again, a refused fill of 0, and the other 6. -/
def tenFilled : List OrderCall :=
  [.apply sentTen rfl, .recordFill "t1" 4 100 0 2 2 false, .recordFill "t1" 4 100 0 2 3 false,
    .recordFill "t2" 0 100 0 4 4 false, .recordFill "t2" 6 100 0 5 5 false]

/-- Filled whole by two trades, and over for good. -/
theorem newTen_filled :
    (tenFilled.foldl Booking.call { order := newTen }).order.state = .filled ∧
    ((tenFilled.foldl Booking.call { order := newTen }).order.state = .filled ↔
      newTen.quantity ≤ (tenFilled.foldl Booking.call { order := newTen }).order.cumQty) := by
  have positive : 0 < newTen.quantity := by decide +kernel
  have invariant := order_saga_invariant positive ⟨rfl, rfl, rfl⟩ tenFilled
  exact ⟨by decide +kernel, invariant.2.2.1⟩

/-- A third of 2, in 28 digits. -/
def third : Decimal := 6666666666666666666666666666 / 10 ^ 28

def newTwo : Order := { newTen with quantity := 2 }

def thirds : List OrderCall :=
  [.apply sentTen rfl, .recordFill "t1" third 100 0 2 2 false,
    .recordFill "t2" third 100 0 3 3 false, .recordFill "t3" third 100 0 4 4 false]

/-- Three fills that are not 2 together fill an order of 2: the second total is rounded
down, the third up. -/
theorem thirds_overfill :
    0 < newTwo.quantity ∧
    (thirds.foldl Booking.call { order := newTwo }).booked.map Prod.snd = [third, third, third] ∧
    (thirds.foldl Booking.call { order := newTwo }).order.state = .filled ∧
    (thirds.foldl Booking.call { order := newTwo }).order.cumQty = 2 ∧
    [third, third, third].sum < 2 ∧
    ¬(thirds.foldl Booking.call { order := newTwo }).order.cumQty =
      ((thirds.foldl Booking.call { order := newTwo }).booked.map Prod.snd).sum := by
  decide +kernel

end Sample

end Tickwright.Domain
