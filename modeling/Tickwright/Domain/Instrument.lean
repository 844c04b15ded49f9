/-
# Domain.Instrument -- what a venue says of a symbol, and what the guard reads

`InstrumentSpec` is the metadata the quantizer and the minimum notional need.
A size rounds down, so an order never asks for more than its signal did
(`quantizeSize_le`); a price rounds to the passive side, so a buy never pays more
than it named and a sell never takes less (`quantizePrice_passive`).

`PreTradeReading` is the account as one placement is judged against it, and
`shrinks` is the rule that lets an exit past every cap: the position moves toward
zero and does not cross it.
-/
import Tickwright.Domain.Venue
import Mathlib.Data.Int.Log
import Mathlib.Data.Rat.Floor

namespace Tickwright.Domain

set_option autoImplicit false

/-- What the guard and the quantizer know of one symbol. -/
structure InstrumentSpec where
  szDecimals : ℤ
  maxDecimals : ℤ
  minNotional : Decimal
  maxSigFigs : Option ℤ := none
  /-- Signed rates on notional; only the paper venue computes with them. -/
  makerFee : Decimal := 0
  takerFee : Decimal := 0
  /-- The maintenance rate on notional, below the venue's first margin band. -/
  marginMaint : Decimal := 0

/-- The signed fee a fill incurs: notional times the rate of its side of the book. -/
def fillFee (price quantity : Decimal) (maker : Bool) (spec : InstrumentSpec) : Decimal :=
  price * quantity * (if maker then spec.makerFee else spec.takerFee)

/-- `Decimal(1).scaleb(-decimals)`. -/
def quantum (decimals : ℤ) : Decimal := (10 : Decimal) ^ (-decimals)

/-- `x.quantize(step, ROUND_DOWN)`: toward zero. -/
def quantizeDown (x step : Decimal) : Decimal :=
  (if 0 ≤ x then (⌊x / step⌋ : Decimal) else (⌈x / step⌉ : Decimal)) * step

/-- `x.quantize(step, ROUND_UP)`: away from zero. -/
def quantizeUp (x step : Decimal) : Decimal :=
  (if 0 ≤ x then (⌈x / step⌉ : Decimal) else (⌊x / step⌋ : Decimal)) * step

/-- Round a size down to the symbol's size decimals. -/
def quantizeSize (size : Decimal) (spec : InstrumentSpec) : Decimal :=
  quantizeDown size (quantum spec.szDecimals)

/-- `price.adjusted()`: the exponent of the most significant digit. -/
def adjusted (price : Decimal) : ℤ := Int.log 10 |price|

/-- The most decimal places a valid price of this magnitude may keep. -/
def allowedDecimals (price : Decimal) (spec : InstrumentSpec) : ℤ :=
  let decimals := spec.maxDecimals - spec.szDecimals
  let decimals := match spec.maxSigFigs with
    | none => decimals
    | some sigFigs =>
        if price = 0 then decimals else min decimals (sigFigs - 1 - adjusted price)
  max 0 decimals

/-- Round a price to the venue's grid, toward the passive side. -/
def quantizePrice (price : Decimal) (side : Side) (spec : InstrumentSpec) : Decimal :=
  let step := quantum (allowedDecimals price spec)
  match side with
  | .buy => quantizeDown price step
  | .sell => quantizeUp price step

def belowMinNotional (price quantity : Decimal) (spec : InstrumentSpec) : Bool :=
  decide (price * quantity < spec.minNotional)

/-- Whether the minimum notional refuses this order. -/
def minNotionalRefuses (price quantity : Decimal) (spec : InstrumentSpec) (side : Side)
    (reduceOnly : Bool) (accountNet : Decimal) : Bool :=
  if !belowMinNotional price quantity spec then
    false
  else
    !(reduceOnly && decide (side.sign * accountNet < 0) && decide (|accountNet| ≤ quantity))

/-! ## Rounding -/

theorem quantum_pos (decimals : ℤ) : 0 < quantum decimals := zpow_pos (by norm_num) _

theorem quantizeDown_le {x step : Decimal} (step_pos : 0 < step) (nonneg : 0 ≤ x) :
    quantizeDown x step ≤ x := by
  rw [quantizeDown, if_pos nonneg]
  calc (⌊x / step⌋ : Decimal) * step
      ≤ x / step * step := mul_le_mul_of_nonneg_right (Int.floor_le _) step_pos.le
    _ = x := div_mul_cancel₀ x step_pos.ne'

theorem le_quantizeUp {x step : Decimal} (step_pos : 0 < step) (nonneg : 0 ≤ x) :
    x ≤ quantizeUp x step := by
  rw [quantizeUp, if_pos nonneg]
  calc x = x / step * step := (div_mul_cancel₀ x step_pos.ne').symm
    _ ≤ (⌈x / step⌉ : Decimal) * step :=
        mul_le_mul_of_nonneg_right (Int.le_ceil _) step_pos.le

/-- **A quantized order is never larger than its signal.** -/
theorem quantizeSize_le {size : Decimal} (spec : InstrumentSpec) (nonneg : 0 ≤ size) :
    quantizeSize size spec ≤ size :=
  quantizeDown_le (quantum_pos _) nonneg

/-- **A quantized price is never more aggressive than the signal's.** -/
theorem quantizePrice_passive {price : Decimal} (side : Side) (spec : InstrumentSpec)
    (nonneg : 0 ≤ price) :
    side.sign * quantizePrice price side spec ≤ side.sign * price := by
  cases side with
  | buy =>
      simp only [Side.sign, one_mul]
      exact quantizeDown_le (quantum_pos _) nonneg
  | sell =>
      simp only [Side.sign, neg_one_mul, neg_le_neg_iff]
      exact le_quantizeUp (quantum_pos _) nonneg

/-! ## What a placement is judged against -/

/-- A trade price of one symbol, as the feed delivers it. -/
structure MarketTick where
  symbol : Symbol
  price : Decimal
deriving DecidableEq

/-- A symbol's latest mark price, and when it was seen. -/
structure MarkTick where
  price : Decimal
  tsEvent : Nanos

/-- The account state the guard judges one placement against. -/
structure PreTradeReading where
  symbol : Symbol
  side : Side
  /-- Signed, over every partition of the symbol. -/
  accountNetSize : Decimal
  /-- Signed, the placing strategy's own partition only. -/
  strategyNetSize : Decimal
  /-- The unfilled part of every open order on `side`. -/
  openRemainder : Decimal
  mark : Option MarkTick

/-- Whether a position moves closer to zero without crossing it. -/
def shrinks (before after : Decimal) : Bool :=
  let sameSide := decide (0 < after) == decide (0 < before)
  decide (|after| < |before|) && (decide (after = 0) || sameSide)

/-- **A shrinking position ends between where it was and zero.** -/
theorem shrinks_between {before after : Decimal} (less : shrinks before after = true) :
    (0 ≤ after ∧ after < before) ∨ (before < after ∧ after ≤ 0) := by
  simp only [shrinks, Bool.and_eq_true, Bool.or_eq_true, decide_eq_true_eq, beq_iff_eq,
    decide_eq_decide] at less
  obtain ⟨closer, flat | same⟩ := less
  · subst flat
    rw [abs_zero, abs_pos] at closer
    rcases lt_or_gt_of_ne closer with short | long
    · exact Or.inr ⟨short, le_refl 0⟩
    · exact Or.inl ⟨le_refl 0, long⟩
  · by_cases long : 0 < before
    · have stays := same.mpr long
      rw [abs_of_pos stays, abs_of_pos long] at closer
      exact Or.inl ⟨stays.le, closer⟩
    · have short := not_lt.mp long
      have stays : after ≤ 0 := not_lt.mp fun crossed => long (same.mp crossed)
      rw [abs_of_nonpos stays, abs_of_nonpos short] at closer
      exact Or.inr ⟨neg_lt_neg_iff.mp closer, stays⟩

end Tickwright.Domain
