/-
# Engine.Guard -- the pre-trade boundary

`RealGuard.check` is the checks of one placement in the source's order: the halt,
the size and price grids, the minimum notional, a reduce-only order's own side,
the three caps of a symbol and the rate cap of the engine.  Each refusal is a
`Denial`, and the rate cap's window is all that a check moves (`check_keeps`).

* an approved quantity is positive (`check_approved_pos`);
* an approved plain order's worst case is inside the position cap, or between
  where it stood without the order and zero (`check_approved_capped`).
-/
import Tickwright.Domain.Instrument
import Tickwright.Engine.Execution

namespace Tickwright.Engine

open Tickwright.Domain Tickwright.Theory

set_option autoImplicit false

/-! ## Limits -/

/-- One symbol's caps; `none` means that cap is off.  A cap is positive. -/
structure SymbolLimits where
  maxOrderSize : Option Decimal := none
  maxOrderValue : Option Decimal := none
  maxPosition : Option Decimal := none
  positive : ∀ cap ∈ [maxOrderSize, maxOrderValue, maxPosition].reduceOption, 0 < cap := by
    decide

/-- At most `maxOrders` approved placements in any window. -/
structure RateCap where
  maxOrders : ℕ
  /-- The setting as it was written, for the refusal's text. -/
  windowSeconds : String
  windowNs : Nanos
  positive : 0 < maxOrders ∧ 0 < windowNs := by decide

structure PreTradeLimits where
  symbols : Symbol → SymbolLimits := fun _ => {}
  markMaxAgeNs : Nanos := 10000000000
  rateCap : Option RateCap := none

/-- The columns of the guard's table. -/
inductive OrderKind
  | plain
  /-- A strategy's reduce-only order. -/
  | reduceOnly
  /-- A reduce-only order from the operator. -/
  | flatten
deriving DecidableEq

def orderKind (signal : PlaceSignal) : OrderKind :=
  if signal.isFlatten then .flatten
  else if signal.reduceOnly then .reduceOnly
  else .plain

/-! ## Refusals -/

/-- Why the guard refuses a placement. -/
inductive Denial
  | killSwitch
  | sizeRoundsToZero
  | belowMinNotional
  | wouldNotReduce
  | aboveMaxOrderSize (cap : Decimal)
  | noMark (cap : Decimal)
  | staleMark (cap : Decimal)
  | aboveMaxOrderValue (cap : Decimal)
  | aboveMaxPosition (cap : Decimal)
  | aboveRateCap (maxOrders : ℕ) (windowSeconds : String)
deriving DecidableEq

/-- The refusal's text; `text` writes a number. -/
def Denial.reason (text : Decimal → String) : Denial → String
  | killSwitch => "kill switch tripped"
  | sizeRoundsToZero => "size rounds to zero"
  | belowMinNotional => "below min notional"
  | wouldNotReduce => "reduce-only order would not reduce strategy position"
  | aboveMaxOrderSize cap => "above max order size " ++ text cap
  | noMark cap => "no mark for max order value " ++ text cap
  | staleMark cap => "stale mark for max order value " ++ text cap
  | aboveMaxOrderValue cap => "above max order value " ++ text cap
  | aboveMaxPosition cap => "above max position " ++ text cap
  | aboveRateCap maxOrders windowSeconds =>
      "above max orders per window " ++ toString maxOrders ++ " in " ++ windowSeconds ++ "s"

/-! ## The guard -/

/-- `pre_trade_reading`: the account as one placement is judged against it.  The
latest mark is the feed's. -/
def preTradeReading (memory : Memory) (symbol : Symbol) (side : Side) (strategyId : StrategyId)
    (mark : Option MarkTick) : PreTradeReading where
  symbol := symbol
  side := side
  accountNetSize := memory.portfolio.accountNet symbol
  strategyNetSize := (memory.portfolio.partition (some strategyId, symbol)).signedSize
  openRemainder := (((memory.cache.openOrders none (some symbol)).filter fun order =>
    order.side = side).map fun order => order.quantity - order.cumQty).sum
  mark := mark

structure RealGuard where
  specs : Symbol → Option InstrumentSpec
  limits : PreTradeLimits := {}
  /-- How a number is written in a refusal. -/
  text : Decimal → String := toString
  tripped : Bool := false
  /-- The times of approved placements inside the rate cap's window. -/
  approvedNs : List Nanos := []

namespace RealGuard

/-- The position if every open order on the side fills. -/
def before (reading : PreTradeReading) (side : Side) : Decimal :=
  reading.accountNetSize + side.sign * reading.openRemainder

/-- The position if this order fills too. -/
def worstCase (reading : PreTradeReading) (side : Side) (quantity : Decimal) : Decimal :=
  before reading side + side.sign * quantity

/-- The price an order is valued at against the order value cap. -/
def valuePrice (guard : RealGuard) (side : Side) (price : Option Decimal)
    (mark : Option MarkTick) (cap : Decimal) (nowNs : Nanos) : Except Denial Decimal :=
  if price = none ∨ side = .sell then
    match mark with
    | none => .error (.noMark cap)
    | some mark =>
        if guard.limits.markMaxAgeNs < nowNs - mark.tsEvent then .error (.staleMark cap)
        else .ok ((price.map fun price => max price mark.price).getD mark.price)
  else .ok (price.getD 0)

/-- The symbol's three caps, for an order that may not skip them. -/
def capRefusal (guard : RealGuard) (limits : SymbolLimits) (reading : PreTradeReading)
    (side : Side) (quantity : Decimal) (price : Option Decimal) (nowNs : Nanos) :
    Option Denial :=
  let size := limits.maxOrderSize.bind fun cap =>
    if cap < quantity then some (.aboveMaxOrderSize cap) else none
  let value := limits.maxOrderValue.bind fun cap =>
    match guard.valuePrice side price reading.mark cap nowNs with
    | .error denial => some denial
    | .ok worth => if cap < quantity * worth then some (.aboveMaxOrderValue cap) else none
  let position := limits.maxPosition.bind fun cap =>
    if cap < |worstCase reading side quantity| then some (.aboveMaxPosition cap) else none
  (size.or value).or position

/-- The window's approvals, the ones that have left it dropped from the front. -/
def inWindow (approvedNs : List Nanos) (windowNs nowNs : Nanos) : List Nanos :=
  approvedNs.dropWhile fun approved => decide (windowNs ≤ nowNs - approved)

/-- The rate cap's verdict, and the window after it. -/
def rateCheck (guard : RealGuard) (kind : OrderKind) (nowNs : Nanos) :
    Option Denial × RealGuard :=
  match guard.limits.rateCap with
  | none => (none, guard)
  | some cap =>
      if kind = .flatten then (none, guard)
      else
        let window := inWindow guard.approvedNs cap.windowNs nowNs
        if cap.maxOrders ≤ window.length then
          (some (.aboveRateCap cap.maxOrders cap.windowSeconds),
            { guard with approvedNs := window })
        else (none, { guard with approvedNs := window ++ [nowNs] })

/-- Whether the order would not shrink its own strategy's position. -/
def ownRefusal (kind : OrderKind) (reading : PreTradeReading) (side : Side)
    (quantity : Decimal) : Bool :=
  let ownBefore := reading.strategyNetSize + side.sign * reading.openRemainder
  decide (kind = .reduceOnly) && !shrinks ownBefore (ownBefore + side.sign * quantity)

/-- `check`. -/
def check (guard : RealGuard) (signal : PlaceSignal) (reading : PreTradeReading)
    (nowNs : Nanos) : Except InvariantViolation (GuardDecision × RealGuard) :=
  let kind := orderKind signal
  let refuse := fun (denial : Denial) (guard : RealGuard) =>
    Except.ok (GuardDecision.denied (denial.reason guard.text), guard)
  if guard.tripped = true ∧ kind ≠ .flatten then
    refuse .killSwitch guard
  else
    match guard.specs signal.symbol with
    | none => .error (.noSpecWired signal.symbol)
    | some spec =>
        let quantity := quantizeSize signal.quantity spec
        if quantity ≤ 0 then
          refuse .sizeRoundsToZero guard
        else
          let price := signal.price.map fun price => quantizePrice price signal.side spec
          if price.any fun price => minNotionalRefuses price quantity spec signal.side
              (decide (kind ≠ .plain)) reading.accountNetSize then
            refuse .belowMinNotional guard
          else
            let reduces := shrinks (before reading signal.side)
              (worstCase reading signal.side quantity)
            if ownRefusal kind reading signal.side quantity then
              refuse .wouldNotReduce guard
            else
              let skipsCaps := reduces || decide (kind ≠ .plain)
              let capped := if skipsCaps then none
                else guard.capRefusal (guard.limits.symbols signal.symbol) reading signal.side
                  quantity price nowNs
              match capped with
              | some denial => refuse denial guard
              | none =>
                  match guard.rateCheck kind nowNs with
                  | (some denial, moved) => refuse denial moved
                  | (none, moved) => .ok (.approved quantity price, moved)

/-! ## What a check can do -/

variable {guard moved : RealGuard} {signal : PlaceSignal} {reading : PreTradeReading}
  {nowNs : Nanos}

theorem rateCheck_keeps (guard : RealGuard) (kind : OrderKind) (nowNs : Nanos) :
    ∃ approvedNs, (guard.rateCheck kind nowNs).2 = { guard with approvedNs := approvedNs } := by
  simp only [rateCheck]
  split
  · exact ⟨guard.approvedNs, rfl⟩
  · split
    · exact ⟨guard.approvedNs, rfl⟩
    · split
      · exact ⟨_, rfl⟩
      · exact ⟨_, rfl⟩

/-- **A check moves the rate window and nothing else.** -/
theorem check_keeps {decision : GuardDecision}
    (checked : guard.check signal reading nowNs = .ok (decision, moved)) :
    ∃ approvedNs, moved = { guard with approvedNs := approvedNs } := by
  have same : ∃ approvedNs, guard = { guard with approvedNs := approvedNs } :=
    ⟨guard.approvedNs, rfl⟩
  simp only [check] at checked
  split at checked
  · cases checked; exact same
  · split at checked
    · cases checked
    · split at checked
      · cases checked; exact same
      · split at checked
        · cases checked; exact same
        · split at checked
          · cases checked; exact same
          · split at checked
            · cases checked; exact same
            · have window := guard.rateCheck_keeps (orderKind signal) nowNs
              split at checked
              · rename_i verdict
                cases checked
                rwa [verdict] at window
              · rename_i verdict
                cases checked
                rwa [verdict] at window

/-- What every check an approved order passed says of it. -/
theorem check_approved {quantity : Decimal} {price : Option Decimal}
    (checked : guard.check signal reading nowNs = .ok (.approved quantity price, moved)) :
    0 < quantity ∧
      ((shrinks (before reading signal.side) (worstCase reading signal.side quantity) ||
          decide (orderKind signal ≠ .plain)) = true ∨
        guard.capRefusal (guard.limits.symbols signal.symbol) reading signal.side quantity price
          nowNs = none) := by
  simp only [check] at checked
  split at checked
  · cases checked
  · split at checked
    · cases checked
    · split at checked
      · cases checked
      · rename_i positive
        split at checked
        · cases checked
        · split at checked
          · cases checked
          · split at checked
            · cases checked
            · rename_i passed
              split at checked
              · cases checked
              · cases checked
                refine ⟨not_le.mp positive, ?_⟩
                split at passed
                · rename_i skipped
                  exact Or.inl skipped
                · exact Or.inr passed

theorem orderKind_plain (plain : signal.reduceOnly = false) : orderKind signal = .plain := by
  simp [orderKind, PlaceSignal.isFlatten, plain]

/-- **An approved plain order stays inside the position cap, or only shrinks what
was there.** -/
theorem check_approved_capped {quantity cap : Decimal} {price : Option Decimal}
    (plain : signal.reduceOnly = false)
    (capped : (guard.limits.symbols signal.symbol).maxPosition = some cap)
    (checked : guard.check signal reading nowNs = .ok (.approved quantity price, moved)) :
    |worstCase reading signal.side quantity| ≤ cap ∨
      shrinks (before reading signal.side) (worstCase reading signal.side quantity) = true := by
  rcases (check_approved checked).2 with skipped | passed
  · rw [orderKind_plain plain] at skipped
    exact Or.inr (by simpa using skipped)
  · left
    simp only [capRefusal, Option.or_eq_none_iff] at passed
    have position := passed.2
    rw [capped] at position
    by_contra past
    rw [Option.bind_some, if_pos (not_le.mp past)] at position
    cases position

end RealGuard

end Tickwright.Engine
