/-
# Theory.Apportion -- units handed out one at a time, to whoever is furthest behind

`handed n k` is what key `k` holds after `n` units.  Each unit goes to a key whose
deficit `lots k * h - got k * side` is largest, `h` the units handed counting this
one and `side` the total of all lots.  Which of several equal keys gets it is the
picker's business (`PicksMax`), and no result depends on it.

* the deficits of one step sum to `side` (`sum_behind`), so the largest one is
  positive as long as there are lots at all;
* every unit lands on a key (`sum_handed`), and what a key holds never goes down
  (`handed_mono`);
* up to `side` units no key passes its own lots (`handed_le`), so a full hand-out
  leaves every key exactly at its lots (`handed_full`), and one unit more pushes
  some key past them (`exists_past`).
-/
import Mathlib.Algebra.BigOperators.Group.Finset.Piecewise
import Mathlib.Algebra.BigOperators.Ring.Finset
import Mathlib.Algebra.Order.BigOperators.Group.Finset
import Mathlib.Tactic.Linarith
import Mathlib.Tactic.Ring

namespace Tickwright.Theory.Apportion

set_option autoImplicit false

open Finset

variable {κ : Type*} [DecidableEq κ]

/-- The picker names a key of `keys` with the largest value. -/
def PicksMax (keys : Finset κ) (pick : (κ → ℤ) → κ) : Prop :=
  ∀ value, pick value ∈ keys ∧ ∀ k ∈ keys, value k ≤ value (pick value)

/-- How far `k` is behind its exact share of `h` units, scaled by `side`. -/
def behind (lots got : κ → ℤ) (side h : ℤ) (k : κ) : ℤ := lots k * h - got k * side

/-- What each key holds after `n` units. -/
def handed (lots : κ → ℤ) (side : ℤ) (pick : (κ → ℤ) → κ) : ℕ → κ → ℤ
  | 0 => fun _ => 0
  | n + 1 =>
      let got := handed lots side pick n
      let best := pick (behind lots got side (n + 1))
      Function.update got best (got best + 1)

variable {keys : Finset κ} {lots : κ → ℤ} {side : ℤ} {pick : (κ → ℤ) → κ}

/-! ## One unit -/

theorem handed_succ (n : ℕ) :
    handed lots side pick (n + 1) =
      Function.update (handed lots side pick n)
        (pick (behind lots (handed lots side pick n) side (n + 1)))
        (handed lots side pick n
          (pick (behind lots (handed lots side pick n) side (n + 1))) + 1) := rfl

theorem handed_step (n : ℕ) (k : κ) :
    handed lots side pick n k ≤ handed lots side pick (n + 1) k := by
  rw [handed_succ, Function.update_apply]
  split
  · rename_i same
    rw [same]
    omega
  · exact le_refl _

/-- **What a key holds never goes down.** -/
theorem handed_mono {m n : ℕ} (le : m ≤ n) (k : κ) :
    handed lots side pick m k ≤ handed lots side pick n k :=
  monotone_nat_of_le_succ (f := fun n => handed lots side pick n k)
    (fun n => handed_step n k) le

theorem handed_nonneg (n : ℕ) (k : κ) : 0 ≤ handed lots side pick n k :=
  handed_mono (Nat.zero_le n) k

/-- A key outside `keys` is never picked. -/
theorem handed_of_not_mem (picks : PicksMax keys pick) {k : κ} (absent : k ∉ keys) (n : ℕ) :
    handed lots side pick n k = 0 := by
  induction n with
  | zero => rfl
  | succ n ih =>
      rw [handed_succ, Function.update_apply, if_neg, ih]
      rintro rfl
      exact absent (picks _).1

/-- **Every unit lands on a key.** -/
theorem sum_handed (picks : PicksMax keys pick) (n : ℕ) :
    ∑ k ∈ keys, handed lots side pick n k = n := by
  induction n with
  | zero => simp [handed]
  | succ n ih =>
      have here := (picks (behind lots (handed lots side pick n) side (n + 1))).1
      rw [handed_succ, sum_update_of_mem here, sdiff_singleton_eq_erase]
      have split := add_sum_erase keys (handed lots side pick n) here
      push_cast
      linarith

/-! ## The quota -/

/-- The deficits of one step sum to the whole side. -/
theorem sum_behind (picks : PicksMax keys pick) (total : ∑ k ∈ keys, lots k = side) (n : ℕ) :
    ∑ k ∈ keys, behind lots (handed lots side pick n) side (n + 1) k = side := by
  simp only [behind]
  rw [sum_sub_distrib, ← sum_mul, ← sum_mul, total, sum_handed picks]
  ring

/-- The key that gets the next unit is really behind. -/
theorem behind_pick_pos (picks : PicksMax keys pick) (total : ∑ k ∈ keys, lots k = side)
    (some_ : 0 < side) (n : ℕ) :
    0 < behind lots (handed lots side pick n) side (n + 1)
      (pick (behind lots (handed lots side pick n) side (n + 1))) := by
  by_contra none_
  have all : ∀ k ∈ keys, behind lots (handed lots side pick n) side (n + 1) k ≤ 0 :=
    fun k member => le_trans ((picks _).2 k member) (not_lt.mp none_)
  have sum := sum_nonpos all
  rw [sum_behind picks total] at sum
  omega

/-- **Up to `side` units, no key passes its own lots.** -/
theorem handed_le (picks : PicksMax keys pick) (total : ∑ k ∈ keys, lots k = side)
    (signed : ∀ k ∈ keys, 0 ≤ lots k) {n : ℕ} (short : (n : ℤ) ≤ side) {k : κ}
    (member : k ∈ keys) : handed lots side pick n k ≤ lots k := by
  induction n with
  | zero => exact signed k member
  | succ n ih =>
      push_cast at short
      have before := ih (by omega)
      rw [handed_succ, Function.update_apply]
      split
      · rename_i same
        subst same
        have deficit := behind_pick_pos picks total (by omega) n
        set best := pick (behind lots (handed lots side pick n) side (n + 1))
        set got := handed lots side pick n best
        simp only [behind] at deficit
        -- The deficit is positive over at most `side` units, so `got` is below the lots.
        have scaled : lots best * ((n : ℤ) + 1) ≤ lots best * side :=
          mul_le_mul_of_nonneg_left short (signed best member)
        have room : got * side < lots best * side := by
          have same : got = handed lots side pick n best := rfl
          rw [same]
          linarith
        have below := lt_of_mul_lt_mul_right room (by omega)
        omega
      · exact before

/-- **A full hand-out leaves every key at its lots.** -/
theorem handed_full (picks : PicksMax keys pick) (total : ∑ k ∈ keys, lots k = side)
    (signed : ∀ k ∈ keys, 0 ≤ lots k) {n : ℕ} (full : (n : ℤ) = side) {k : κ}
    (member : k ∈ keys) : handed lots side pick n k = lots k := by
  have quota : ∀ j ∈ keys, handed lots side pick n j ≤ lots j :=
    fun j there => handed_le picks total signed full.le there
  have sums : ∑ j ∈ keys, handed lots side pick n j = ∑ j ∈ keys, lots j := by
    rw [sum_handed picks, total, full]
  exact (sum_eq_sum_iff_of_le quota).mp sums k member

/-- One unit more than the lots pushes some key past its own. -/
theorem exists_past (picks : PicksMax keys pick) (total : ∑ k ∈ keys, lots k = side) {n : ℕ}
    (past : side < n) : ∃ k ∈ keys, lots k < handed lots side pick n k := by
  apply exists_lt_of_sum_lt
  rw [sum_handed picks, total]
  exact past

end Tickwright.Theory.Apportion
