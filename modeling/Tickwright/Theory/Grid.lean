/-
# Theory.Grid -- the multiples of an interval along a clock

A grid is the multiples of a positive interval.  `slotAt` is the last one at or
before an instant, `nextSlot` the first one after it, `slotsIn` the ones in a span
open at its start and closed at its end.

* `le_slotAt_iff` is the reading a bound on a slot comes down to;
* `mem_slotsIn` says which slots a span has, `slotsIn_sorted` that it lists them in
  order, so two spans that meet share none.
-/
import Mathlib.Algebra.Order.Ring.Int
import Mathlib.Data.List.Range
import Mathlib.Tactic.Linarith

namespace Tickwright.Theory

set_option autoImplicit false

namespace Grid

/-- The last multiple of `interval` at or before `instant`. -/
def slotAt (interval instant : ℤ) : ℤ := instant / interval * interval

/-- The first multiple of `interval` after `instant`. -/
def nextSlot (interval instant : ℤ) : ℤ := (instant / interval + 1) * interval

/-- The multiples of `interval` after `start` and up to `stop`, in order. -/
def slotsIn (interval start stop : ℤ) : List ℤ :=
  (List.range (stop / interval - start / interval).toNat).map fun (n : ℕ) =>
    (start / interval + 1 + n) * interval

variable {interval instant slot start stop : ℤ}

theorem nextSlot_eq : nextSlot interval instant = slotAt interval instant + interval := by
  rw [nextSlot, slotAt, add_mul, one_mul]

theorem dvd_slotAt : interval ∣ slotAt interval instant := dvd_mul_left _ _

theorem dvd_nextSlot : interval ∣ nextSlot interval instant := dvd_mul_left _ _

section Positive

variable (positive : 0 < interval)
include positive

theorem slotAt_le : slotAt interval instant ≤ instant := Int.ediv_mul_le _ positive.ne'

theorem lt_nextSlot : instant < nextSlot interval instant :=
  Int.lt_ediv_add_one_mul_self _ positive

/-- **A slot is at or before the last one reached when it is at or before the instant.** -/
theorem le_slotAt_iff (aligned : interval ∣ slot) :
    slot ≤ slotAt interval instant ↔ slot ≤ instant := by
  obtain ⟨k, rfl⟩ := aligned
  rw [slotAt, mul_comm interval k, mul_le_mul_iff_left₀ positive, Int.le_ediv_iff_mul_le positive]

/-- **Which slots a span has.** -/
theorem mem_slotsIn : slot ∈ slotsIn interval start stop ↔
    interval ∣ slot ∧ start < slot ∧ slot ≤ stop := by
  simp only [slotsIn, List.mem_map, List.mem_range]
  constructor
  · rintro ⟨n, less, rfl⟩
    refine ⟨dvd_mul_left _ _, ?_, ?_⟩
    · refine (lt_nextSlot positive).trans_le (mul_le_mul_of_nonneg_right ?_ positive.le)
      omega
    · refine le_trans (mul_le_mul_of_nonneg_right ?_ positive.le) (slotAt_le positive)
      omega
  · rintro ⟨⟨k, rfl⟩, after, upTo⟩
    rw [mul_comm interval k] at after upTo ⊢
    have low := (Int.ediv_lt_iff_lt_mul positive).mpr after
    have high := (Int.le_ediv_iff_mul_le positive).mpr upTo
    refine ⟨(k - start / interval - 1).toNat, by omega, ?_⟩
    congr 1
    omega

theorem slotsIn_sorted : (slotsIn interval start stop).Pairwise (· < ·) := by
  rw [slotsIn, List.pairwise_map]
  refine List.pairwise_lt_range.imp fun {n m} less => ?_
  exact mul_lt_mul_of_pos_right (by omega) positive

end Positive

end Grid

end Tickwright.Theory
