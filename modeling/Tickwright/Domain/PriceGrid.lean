/-
# Domain.PriceGrid -- what a quantized price is

The venue takes a price that is an integer, or that has at most `max_sig_figs`
significant figures and at most `max_decimals - sz_decimals` places (`VenueValid`).
`quantize_price` never asks whether a price is valid: it reads the places off the
magnitude of the price it is given and rounds to them.

* every valid price at least as large as that magnitude lies on the rounding's grid
  (`VenueValid.onGrid`), so rounding passes none by;
* what it rounds to is valid, the carry into the next power of ten included
  (`quantizePrice_valid`): that power has one figure;
* a valid price is on its own grid and stays as it is (`quantizePrice_of_valid`).
-/
import Tickwright.Domain.Instrument
import Tickwright.Theory.Digits

namespace Tickwright.Domain

open Theory

set_option autoImplicit false

/-- What the venue accepts as a price: an integer, or few enough figures and places. -/
def VenueValid (spec : InstrumentSpec) (price : Decimal) : Prop :=
  OnGrid 10 0 price ∨
    (OnGrid 10 (-(spec.maxDecimals - spec.szDecimals)) price ∧
      ∀ sigFigs, spec.maxSigFigs = some sigFigs → Digits 10 sigFigs price)

/-- What the specs promise: no negative number of places, and a figure at least. -/
structure InstrumentSpec.Sound (spec : InstrumentSpec) : Prop where
  places : spec.szDecimals ≤ spec.maxDecimals
  figures : ∀ sigFigs, spec.maxSigFigs = some sigFigs → 1 ≤ sigFigs

variable {spec : InstrumentSpec} {price other : Decimal}

/-! ## The grid a price is rounded to -/

theorem ten_pos : (0 : Decimal) < 10 := by norm_num

theorem onGrid_mono {coarse fine : ℤ} (on : OnGrid (10 : Decimal) coarse price)
    (le : fine ≤ coarse) : OnGrid (10 : Decimal) fine price := by
  rw [← ten_cast] at on ⊢
  exact on.mono (by norm_num) le

theorem ten_zpow_le {small large : ℤ} (le : small ≤ large) :
    (10 : Decimal) ^ small ≤ 10 ^ large :=
  zpow_le_zpow_right₀ (by norm_num) le

/-- A power of ten is on the grid of every smaller one. -/
theorem onGrid_power {fine e : ℤ} (le : fine ≤ e) : OnGrid (10 : Decimal) fine (10 ^ e) :=
  onGrid_mono ⟨1, by rw [Int.cast_one, one_mul]⟩ le

theorem adjusted_le (positive : 0 < price) : (10 : Decimal) ^ adjusted price ≤ price := by
  rw [adjusted, abs_of_pos positive, ← ten_cast]
  exact Int.zpow_log_le_self (by norm_num) positive

theorem lt_succ_adjusted (positive : 0 < price) :
    price < (10 : Decimal) ^ (adjusted price + 1) := by
  rw [adjusted, abs_of_pos positive, ← ten_cast]
  exact Int.lt_zpow_succ_log_self (by norm_num) price

/-- What decides the places of a price: the venue's own cap, or its figures. -/
theorem allowedDecimals_cases (sound : spec.Sound) (positive : 0 < price) :
    0 ≤ allowedDecimals price spec ∧
    allowedDecimals price spec ≤ spec.maxDecimals - spec.szDecimals ∧
    (∀ sigFigs, spec.maxSigFigs = some sigFigs →
      allowedDecimals price spec ≤ max 0 (sigFigs - 1 - adjusted price)) ∧
    (allowedDecimals price spec = spec.maxDecimals - spec.szDecimals ∨
      ∃ sigFigs, spec.maxSigFigs = some sigFigs ∧
        allowedDecimals price spec = max 0 (sigFigs - 1 - adjusted price)) := by
  have places := sound.places
  cases named : spec.maxSigFigs with
  | none =>
      simp only [allowedDecimals, named]
      refine ⟨by omega, by omega, ?_, Or.inl (by omega)⟩
      intro _ absurd
      cases absurd
  | some sigFigs =>
      simp only [allowedDecimals, named, if_neg positive.ne']
      refine ⟨by omega, by omega, ?_, ?_⟩
      · intro figures same
        cases same
        omega
      · by_cases least : sigFigs - 1 - adjusted price ≤ spec.maxDecimals - spec.szDecimals
        · exact Or.inr ⟨sigFigs, rfl, by omega⟩
        · exact Or.inl (by omega)

/-- **The rounding's grid passes no valid price by.**  The size is asked for only
where the figures decided the places. -/
theorem VenueValid.onGrid (sound : spec.Sound) (positive : 0 < price)
    (valid : VenueValid spec other)
    (size : -allowedDecimals price spec ≤ adjusted price →
      (10 : Decimal) ^ adjusted price ≤ other) :
    OnGrid 10 (-allowedDecimals price spec) other := by
  obtain ⟨nonneg, _, _, decided⟩ := allowedDecimals_cases sound positive
  rcases valid with integer | ⟨places, figures⟩
  · exact onGrid_mono integer (by omega)
  · rcases decided with cap | ⟨sigFigs, named, decided⟩
    · rw [cap]
      exact places
    · have some_figure := sound.figures sigFigs named
      have few := figures sigFigs named
      have large := size (by omega)
      rw [← ten_cast] at few large
      have coarse := few.onGrid (by norm_num) large
      rw [ten_cast] at coarse
      exact onGrid_mono coarse (by omega)

/-! ## What it rounds to -/

theorem quantizePrice_buy (nonneg : 0 ≤ price) :
    quantizePrice price .buy spec =
      ⌊price / 10 ^ (-allowedDecimals price spec)⌋ * 10 ^ (-allowedDecimals price spec) := by
  simp only [quantizePrice, quantizeDown, if_pos nonneg, quantum]

theorem quantizePrice_sell (nonneg : 0 ≤ price) :
    quantizePrice price .sell spec =
      ⌈price / 10 ^ (-allowedDecimals price spec)⌉ * 10 ^ (-allowedDecimals price spec) := by
  simp only [quantizePrice, quantizeUp, if_pos nonneg, quantum]

variable (spec) in
theorem quantizePrice_onGrid (side : Side) (nonneg : 0 ≤ price) :
    OnGrid 10 (-allowedDecimals price spec) (quantizePrice price side spec) := by
  cases side with
  | buy =>
      rw [quantizePrice_buy nonneg]
      exact OnGrid.multiple _
  | sell =>
      rw [quantizePrice_sell nonneg]
      exact OnGrid.multiple _

theorem quantizePrice_nonneg (side : Side) (nonneg : 0 ≤ price) :
    0 ≤ quantizePrice price side spec := by
  cases side with
  | buy =>
      rw [quantizePrice_buy nonneg]
      exact OnGrid.le_floor ten_pos (OnGrid.zero _ _) nonneg
  | sell => exact nonneg.trans (le_quantizeUp (quantum_pos _) nonneg)

/-- A price of `count` figures at its places, rounded up, is at most the next power. -/
theorem quantizePrice_le_power {count : ℤ} (side : Side) (positive : 0 < price)
    (some_figure : 1 ≤ count) (fits : allowedDecimals price spec + adjusted price + 1 ≤ count) :
    quantizePrice price side spec ≤ 10 ^ (count + -allowedDecimals price spec) := by
  have below : price ≤ 10 ^ (count + -allowedDecimals price spec) :=
    (lt_succ_adjusted positive).le.trans (ten_zpow_le (by omega))
  cases side with
  | buy => exact (quantizeDown_le (quantum_pos _) positive.le).trans below
  | sell =>
      rw [quantizePrice_sell positive.le]
      exact OnGrid.ceil_le ten_pos (onGrid_power (by omega)) below

/-- **What it rounds to is valid**, a carry into the next power of ten included. -/
theorem quantizePrice_valid (sound : spec.Sound) (side : Side) (positive : 0 < price) :
    VenueValid spec (quantizePrice price side spec) := by
  obtain ⟨nonneg, places, figures, _⟩ := allowedDecimals_cases sound positive
  have on := quantizePrice_onGrid spec side positive.le
  rcases nonneg.eq_or_lt with whole | fraction
  · rw [← whole, neg_zero] at on
    exact Or.inl on
  · refine Or.inr ⟨onGrid_mono on (by omega), fun sigFigs named => ?_⟩
    have some_figure := sound.figures sigFigs named
    have most := figures sigFigs named
    exact on.digits (by norm_num) (quantizePrice_nonneg side positive.le) some_figure
      (quantizePrice_le_power side positive some_figure (by omega))

/-- **A valid price stays as it is.** -/
theorem quantizePrice_of_valid (sound : spec.Sound) (side : Side) (nonneg : 0 ≤ price)
    (valid : VenueValid spec price) : quantizePrice price side spec = price := by
  have on : OnGrid 10 (-allowedDecimals price spec) price := by
    rcases nonneg.eq_or_lt with zero | positive
    · rw [← zero]
      exact OnGrid.zero _ _
    · exact valid.onGrid sound positive fun _ => adjusted_le positive
  cases side with
  | buy => rw [quantizePrice_buy nonneg, on.floor_eq ten_pos]
  | sell => rw [quantizePrice_sell nonneg, on.ceil_eq ten_pos]

/-- No valid price lies between a price and what it rounds to. -/
theorem quantizePrice_tight (sound : spec.Sound) (side : Side) (positive : 0 < price)
    (valid : VenueValid spec other) :
    match side with
    | .buy => other ≤ price → other ≤ quantizePrice price .buy spec
    | .sell => price ≤ other → quantizePrice price .sell spec ≤ other := by
  cases side with
  | buy =>
      intro below
      by_contra between
      rw [not_le, quantizePrice_buy positive.le] at between
      -- The power a price begins with is on its grid, so nothing below it is passed by.
      have size : -allowedDecimals price spec ≤ adjusted price →
          (10 : Decimal) ^ adjusted price ≤ other := fun le =>
        ((onGrid_power le).le_floor ten_pos (adjusted_le positive)).trans between.le
      have on := valid.onGrid sound positive size
      exact absurd (on.le_floor ten_pos below) (not_le.mpr between)
  | sell =>
      intro above
      rw [quantizePrice_sell positive.le]
      have on := valid.onGrid sound positive fun _ => (adjusted_le positive).trans above
      exact on.ceil_le ten_pos above

/-- **Price quantization is valid, passive, tight and idempotent.** -/
theorem quantizePrice_exact (sound : spec.Sound) (side : Side) (positive : 0 < price) :
    VenueValid spec (quantizePrice price side spec) ∧
    (side = .buy → quantizePrice price side spec ≤ price) ∧
    (side = .sell → price ≤ quantizePrice price side spec) ∧
    (∀ other, VenueValid spec other →
      ¬ (min (quantizePrice price side spec) price < other ∧
        other < max (quantizePrice price side spec) price)) ∧
    quantizePrice (quantizePrice price side spec) side spec = quantizePrice price side spec := by
  have valid := quantizePrice_valid sound side positive
  refine ⟨valid, ?_, ?_, ?_,
    quantizePrice_of_valid sound side (quantizePrice_nonneg side positive.le) valid⟩
  · rintro rfl
    exact quantizeDown_le (quantum_pos _) positive.le
  · rintro rfl
    exact le_quantizeUp (quantum_pos _) positive.le
  · rintro other valid ⟨above, below⟩
    have tight := quantizePrice_tight sound side positive valid
    cases side with
    | buy =>
        have passive : quantizePrice price .buy spec ≤ price :=
          quantizeDown_le (quantum_pos _) positive.le
        rw [min_eq_left passive] at above
        rw [max_eq_right passive] at below
        exact absurd (tight below.le) (not_le.mpr above)
    | sell =>
        have passive : price ≤ quantizePrice price .sell spec :=
          le_quantizeUp (quantum_pos _) positive.le
        rw [min_eq_right passive] at above
        rw [max_eq_left passive] at below
        exact absurd (tight above.le) (not_le.mpr below)

namespace Sample

/-- Four figures, six places. -/
def fourFigures : InstrumentSpec where
  szDecimals := 0
  maxDecimals := 6
  minNotional := 10
  maxSigFigs := some 4

theorem fourFigures_sound : fourFigures.Sound := by
  refine ⟨by decide, fun sigFigs named => ?_⟩
  cases named
  decide

/-- A sell at 9.9996 carries into 10. -/
theorem carried_up :
    quantizePrice (99996 / 10000) .sell fourFigures = 10 ∧
      VenueValid fourFigures (quantizePrice (99996 / 10000) .sell fourFigures) :=
  ⟨by decide +kernel, (quantizePrice_exact fourFigures_sound .sell (by norm_num)).1⟩

end Sample

end Tickwright.Domain
