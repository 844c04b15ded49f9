/-
# Theory.Digits -- grids of a base, and numbers of few digits

`OnGrid base e x` says that `x` is a multiple of `base ^ e`, `Digits base count x`
that `count` digits write `x`, zeros at its end not counted.  Neither refines the
other: a grid bounds the places after the point, a count bounds the digits.

* rounding to a grid misses nothing of it (`OnGrid.le_floor`, `OnGrid.ceil_le`), and
  leaves what is on it (`OnGrid.floor_eq`, `OnGrid.ceil_eq`);
* a number of few digits that is not small is on a coarse grid (`Digits.onGrid`);
* rounding to a grid asks for no more digits (`Digits.floor`, `Digits.ceil`);
* a number of a grid that is not large has few digits, the first power beyond them
  included (`OnGrid.digits`).  That power is where rounding up carries.
-/
import Mathlib.Algebra.Order.Floor.Ring
import Mathlib.Algebra.Order.Field.Power
import Mathlib.Tactic.Linarith
import Mathlib.Tactic.Ring

namespace Tickwright.Theory

set_option autoImplicit false

universe u

variable {K : Type u} [Field K]

/-- `x` is a multiple of `base ^ e`. -/
def OnGrid (base : K) (e : ℤ) (x : K) : Prop := ∃ k : ℤ, x = k * base ^ e

/-- `count` digits write `x`, wherever its point stands. -/
def Digits [LinearOrder K] (base : K) (count : ℤ) (x : K) : Prop :=
  ∃ m e : ℤ, x = m * base ^ e ∧ |(m : K)| < base ^ count

variable {base x : K} {e fine count : ℤ}

namespace OnGrid

theorem zero (base : K) (e : ℤ) : OnGrid base e 0 := ⟨0, by rw [Int.cast_zero, zero_mul]⟩

theorem multiple (k : ℤ) : OnGrid base e (k * base ^ e) := ⟨k, rfl⟩

variable [LinearOrder K] [IsStrictOrderedRing K]

/-- A coarser grid lies on a finer one, where the base is a whole number. -/
theorem mono {whole : ℕ} (positive : 0 < whole) (on : OnGrid (whole : K) e x) (le : fine ≤ e) :
    OnGrid (whole : K) fine x := by
  obtain ⟨k, rfl⟩ := on
  obtain ⟨n, difference⟩ := Int.eq_ofNat_of_zero_le (Int.sub_nonneg_of_le le)
  have nonzero : (whole : K) ≠ 0 := Nat.cast_ne_zero.mpr positive.ne'
  have split : (whole : K) ^ e = (whole : K) ^ n * (whole : K) ^ fine := by
    rw [← zpow_natCast, ← zpow_add₀ nonzero]
    congr 1
    omega
  refine ⟨k * (whole : ℤ) ^ n, ?_⟩
  rw [split]
  push_cast
  ring

variable [FloorRing K]

/-- Nothing of the grid lies between a number and the multiple below it. -/
theorem le_floor {y : K} (positive : 0 < base) (on : OnGrid base e x) (le : x ≤ y) :
    x ≤ (⌊y / base ^ e⌋ : K) * base ^ e := by
  obtain ⟨k, rfl⟩ := on
  have step := zpow_pos positive e
  have below : k ≤ ⌊y / base ^ e⌋ := Int.le_floor.mpr ((le_div_iff₀ step).mpr le)
  exact mul_le_mul_of_nonneg_right (Int.cast_le.mpr below) step.le

theorem ceil_le {y : K} (positive : 0 < base) (on : OnGrid base e x) (le : y ≤ x) :
    (⌈y / base ^ e⌉ : K) * base ^ e ≤ x := by
  obtain ⟨k, rfl⟩ := on
  have step := zpow_pos positive e
  have above : ⌈y / base ^ e⌉ ≤ k := Int.ceil_le.mpr ((div_le_iff₀ step).mpr le)
  exact mul_le_mul_of_nonneg_right (Int.cast_le.mpr above) step.le

theorem floor_eq (positive : 0 < base) (on : OnGrid base e x) :
    (⌊x / base ^ e⌋ : K) * base ^ e = x := by
  obtain ⟨k, rfl⟩ := on
  rw [mul_div_cancel_right₀ _ (zpow_pos positive e).ne', Int.floor_intCast]

theorem ceil_eq (positive : 0 < base) (on : OnGrid base e x) :
    (⌈x / base ^ e⌉ : K) * base ^ e = x := by
  obtain ⟨k, rfl⟩ := on
  rw [mul_div_cancel_right₀ _ (zpow_pos positive e).ne', Int.ceil_intCast]

end OnGrid

variable [LinearOrder K] [IsStrictOrderedRing K]

/-- **Few digits on a number of some size put it on a coarse grid.** -/
theorem Digits.onGrid {whole : ℕ} (one_lt : 1 < whole) (digits : Digits (whole : K) count x)
    (size : (whole : K) ^ e ≤ x) : OnGrid (whole : K) (e - count + 1) x := by
  obtain ⟨m, place, rfl, few⟩ := digits
  have one_lt_base : (1 : K) < whole := Nat.one_lt_cast.mpr one_lt
  have positive : (0 : K) < whole := zero_lt_one.trans one_lt_base
  have large : (whole : K) ^ e < (whole : K) ^ (count + place) :=
    calc (whole : K) ^ e
        ≤ m * (whole : K) ^ place := size
      _ ≤ |(m : K)| * (whole : K) ^ place :=
          mul_le_mul_of_nonneg_right (le_abs_self _) (zpow_pos positive _).le
      _ < (whole : K) ^ count * (whole : K) ^ place :=
          mul_lt_mul_of_pos_right few (zpow_pos positive _)
      _ = (whole : K) ^ (count + place) := (zpow_add₀ positive.ne' _ _).symm
  have exponents : e < count + place := (zpow_lt_zpow_iff_right₀ one_lt_base).mp large
  exact OnGrid.mono (by omega) ⟨m, rfl⟩ (by omega)

theorem Digits.abs {whole : ℕ} (digits : Digits (whole : K) count x) :
    Digits (whole : K) count |x| := by
  obtain ⟨m, place, rfl, few⟩ := digits
  have power : (0 : K) ≤ (whole : K) ^ place := zpow_nonneg (Nat.cast_nonneg _) _
  refine ⟨|m|, place, by rw [abs_mul, abs_of_nonneg power, Int.cast_abs], ?_⟩
  rw [Int.cast_abs, abs_abs]
  exact few

section Rounded

variable [FloorRing K] {whole : ℕ} (one_lt : 1 < whole) (digits : Digits (whole : K) count x)
  (nonneg : 0 ≤ x) (e : ℤ)

include one_lt digits nonneg

/-- A number of few digits is on a grid, or lies below so many steps of it as its own
digits count. -/
theorem Digits.grid_or_below : OnGrid (whole : K) e x ∨
    ∃ m : ℤ, x / (whole : K) ^ e ≤ m ∧ |(m : K)| < (whole : K) ^ count := by
  have one_le : (1 : K) ≤ whole := Nat.one_le_cast.mpr one_lt.le
  have positive : (0 : K) < whole := zero_lt_one.trans_le one_le
  obtain ⟨m, place, rfl, few⟩ := digits
  rcases le_total e place with coarse | fine
  · exact .inl (OnGrid.mono (by omega) ⟨m, rfl⟩ coarse)
  · refine .inr ⟨m, ?_, few⟩
    have m_nonneg : (0 : K) ≤ m := nonneg_of_mul_nonneg_left nonneg (zpow_pos positive _)
    rw [mul_div_assoc, ← zpow_sub₀ positive.ne']
    exact mul_le_of_le_one_right m_nonneg (zpow_le_one_of_nonpos₀ one_le (by omega))

/-- **Rounding down to a grid takes no more digits.** -/
theorem Digits.floor :
    Digits (whole : K) count ((⌊x / (whole : K) ^ e⌋ : K) * (whole : K) ^ e) := by
  have positive : (0 : K) < whole := Nat.cast_pos.mpr (by omega)
  rcases digits.grid_or_below one_lt nonneg e with on | ⟨m, below, few⟩
  · rw [on.floor_eq positive]
    exact digits
  · have least : 0 ≤ ⌊x / (whole : K) ^ e⌋ :=
      Int.floor_nonneg.mpr (div_nonneg nonneg (zpow_pos positive _).le)
    have most : (⌊x / (whole : K) ^ e⌋ : K) ≤ m := (Int.floor_le _).trans below
    refine ⟨_, e, rfl, lt_of_le_of_lt ?_ few⟩
    rw [abs_of_nonneg (Int.cast_nonneg least)]
    exact most.trans (le_abs_self _)

/-- **So does rounding up.** -/
theorem Digits.ceil :
    Digits (whole : K) count ((⌈x / (whole : K) ^ e⌉ : K) * (whole : K) ^ e) := by
  have positive : (0 : K) < whole := Nat.cast_pos.mpr (by omega)
  rcases digits.grid_or_below one_lt nonneg e with on | ⟨m, below, few⟩
  · rw [on.ceil_eq positive]
    exact digits
  · have least : 0 ≤ ⌈x / (whole : K) ^ e⌉ :=
      Int.ceil_nonneg (div_nonneg nonneg (zpow_pos positive _).le)
    have most : (⌈x / (whole : K) ^ e⌉ : K) ≤ m := Int.cast_le.mpr (Int.ceil_le.mpr below)
    refine ⟨_, e, rfl, lt_of_le_of_lt ?_ few⟩
    rw [abs_of_nonneg (Int.cast_nonneg least)]
    exact most.trans (le_abs_self _)

end Rounded

/-- **A number of a grid has few digits, up to the power where the next one begins**:
that power itself takes one digit. -/
theorem OnGrid.digits (one_lt : 1 < base) (on : OnGrid base e x) (nonneg : 0 ≤ x)
    (some_digit : 1 ≤ count) (bounded : x ≤ base ^ (count + e)) : Digits base count x := by
  obtain ⟨m, rfl⟩ := on
  have positive : 0 < base := zero_lt_one.trans one_lt
  have step : 0 < base ^ e := zpow_pos positive e
  have m_nonneg : (0 : K) ≤ m := nonneg_of_mul_nonneg_left nonneg step
  rw [zpow_add₀ positive.ne'] at bounded
  have m_le : (m : K) ≤ base ^ count := le_of_mul_le_mul_right bounded step
  rcases m_le.lt_or_eq with short | carried
  · exact ⟨m, e, rfl, by rwa [abs_of_nonneg m_nonneg]⟩
  · refine ⟨1, count + e, ?_, ?_⟩
    · rw [carried, zpow_add₀ positive.ne', Int.cast_one, one_mul]
    · rw [Int.cast_one, abs_one]
      exact one_lt_zpow₀ one_lt (by omega)

end Tickwright.Theory
