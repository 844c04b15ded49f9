/-
# Theory.HalfEven -- rounding to a number of digits, ties to the even neighbour

`roundDigits base count x` is `x` rounded to `count` significant digits.  What the
rounding adds is written out beside it (`roundingGain`): the fraction of the last
place is dropped, or filled up to the next whole place, and an exact half goes to
the even one.  A sum of rounded numbers is then the exact sum and the gains.

* `roundDigits_eq`: a rounded number is the exact one and its gain;
* `two_mul_abs_roundingGain_le`: a gain is at most half a last place;
* `roundingGain_of_digits`: a number of few enough digits gains nothing;
* `roundDigits_of_digits`, `roundDigits_digits`: so it is that number, and every rounded
  number is one;
* `roundDigits_nonneg`, `roundDigits_pos`: rounding changes no sign.
-/
import Mathlib.Algebra.Order.Floor.Ring
import Mathlib.Algebra.Ring.Int.Parity
import Mathlib.Data.Int.Log
import Mathlib.Tactic.FieldSimp
import Tickwright.Theory.Digits

namespace Tickwright.Theory

set_option autoImplicit false

universe u

variable {K : Type u} [Field K] [LinearOrder K] [IsStrictOrderedRing K] [FloorRing K]

/-! ## The nearest whole number -/

/-- The fraction of `x` is less than a half, or a half over an even number. -/
def RoundsDown (x : K) : Prop := 2 * Int.fract x < 1 ∨ 2 * Int.fract x = 1 ∧ Even ⌊x⌋

instance (x : K) : Decidable (RoundsDown x) :=
  inferInstanceAs (Decidable (2 * Int.fract x < 1 ∨ 2 * Int.fract x = 1 ∧ Even ⌊x⌋))

/-- The nearest whole number, of two the even one. -/
def halfEven (x : K) : ℤ := if RoundsDown x then ⌊x⌋ else ⌊x⌋ + 1

/-- What the rounding adds: the fraction is dropped, or filled up to one. -/
def halfEvenGain (x : K) : K := if RoundsDown x then -Int.fract x else 1 - Int.fract x

variable {x : K}

theorem halfEven_eq (x : K) : (halfEven x : K) = x + halfEvenGain x := by
  have parts := Int.floor_add_fract x
  unfold halfEven halfEvenGain
  split <;> push_cast <;> linarith

theorem two_mul_abs_halfEvenGain_le (x : K) : 2 * |halfEvenGain x| ≤ 1 := by
  have nonneg := Int.fract_nonneg x
  have lt_one := Int.fract_lt_one x
  unfold halfEvenGain
  split
  · rename_i down
    rw [abs_neg, abs_of_nonneg nonneg]
    rcases down with less | ⟨half, -⟩ <;> linarith
  · rename_i up
    have more : 1 ≤ 2 * Int.fract x := not_lt.mp fun less => up (.inl less)
    rw [abs_of_nonneg (by linarith)]
    linarith

@[simp] theorem halfEvenGain_intCast (k : ℤ) : halfEvenGain (k : K) = 0 := by
  simp [halfEvenGain, RoundsDown]

omit [IsStrictOrderedRing K] in
theorem halfEven_nonneg (nonneg : 0 ≤ x) : 0 ≤ halfEven x := by
  have floor := Int.floor_nonneg.mpr nonneg
  unfold halfEven
  split <;> omega

/-! ## So many digits -/

/-- The unit in the last of `count` significant digits of `x`. -/
def lastPlace (base : ℕ) (count : ℤ) (x : K) : K := (base : K) ^ (Int.log base |x| + 1 - count)

/-- `x` rounded to `count` significant digits. -/
def roundDigits (base : ℕ) (count : ℤ) (x : K) : K :=
  halfEven (x / lastPlace base count x) * lastPlace base count x

/-- What rounding to `count` significant digits adds to `x`. -/
def roundingGain (base : ℕ) (count : ℤ) (x : K) : K :=
  halfEvenGain (x / lastPlace base count x) * lastPlace base count x

variable {base : ℕ} {count : ℤ}

theorem lastPlace_pos (some_ : 0 < base) : 0 < lastPlace base count x :=
  zpow_pos (Nat.cast_pos.mpr some_) _

/-- **A rounded number is the exact one and its gain.** -/
theorem roundDigits_eq (some_ : 0 < base) (x : K) :
    roundDigits base count x = x + roundingGain base count x := by
  have place := (lastPlace_pos some_ : 0 < lastPlace base count x)
  rw [roundDigits, roundingGain, halfEven_eq, add_mul, div_mul_cancel₀ _ place.ne']

/-- **A gain is at most half a last place.** -/
theorem two_mul_abs_roundingGain_le (some_ : 0 < base) (x : K) :
    2 * |roundingGain base count x| ≤ lastPlace base count x := by
  have place := (lastPlace_pos some_ : 0 < lastPlace base count x)
  rw [roundingGain, abs_mul, abs_of_pos place, ← mul_assoc]
  exact mul_le_of_le_one_left place.le (two_mul_abs_halfEvenGain_le _)

theorem roundDigits_nonneg (some_ : 0 < base) (nonneg : 0 ≤ x) :
    0 ≤ roundDigits base count x := by
  have place := (lastPlace_pos some_ : 0 < lastPlace base count x)
  have whole := halfEven_nonneg (div_nonneg nonneg place.le)
  exact mul_nonneg (Int.cast_nonneg whole) place.le

/-- A positive number keeps its first digit. -/
theorem roundDigits_pos (one_lt : 1 < base) (some_digit : 1 ≤ count) (positive : 0 < x) :
    0 < roundDigits base count x := by
  have place : 0 < lastPlace base count x := lastPlace_pos (by omega)
  have base_one_le : (1 : K) ≤ base := Nat.one_le_cast.mpr one_lt.le
  have le : lastPlace base count x ≤ x :=
    calc lastPlace base count x
        ≤ (base : K) ^ Int.log base |x| := zpow_le_zpow_right₀ base_one_le (by omega)
      _ ≤ |x| := Int.zpow_log_le_self one_lt (abs_pos.mpr positive.ne')
      _ = x := abs_of_pos positive
  have floor : 1 ≤ ⌊x / lastPlace base count x⌋ := by
    apply Int.le_floor.mpr
    rw [Int.cast_one, one_le_div place]
    exact le
  have whole : 0 < halfEven (x / lastPlace base count x) := by
    unfold halfEven
    split <;> omega
  exact mul_pos (Int.cast_pos.mpr whole) place

@[simp] theorem roundingGain_zero : roundingGain base count (0 : K) = 0 := by
  have gain : halfEvenGain (0 : K) = 0 := by simpa using halfEvenGain_intCast (K := K) 0
  simp [roundingGain, gain]

/-- **A number of few enough digits gains nothing**: it is a whole number of its last
places. -/
theorem roundingGain_of_digits (one_lt : 1 < base) (digits : Digits (base : K) count x) :
    roundingGain base count x = 0 := by
  by_cases zero : x = 0
  · rw [zero]
    exact roundingGain_zero
  · have size : (base : K) ^ Int.log base |x| ≤ |x| :=
      Int.zpow_log_le_self one_lt (abs_pos.mpr zero)
    obtain ⟨k, whole⟩ := digits.abs.onGrid one_lt size
    have place : lastPlace base count x = (base : K) ^ (Int.log base |x| - count + 1) := by
      rw [lastPlace, sub_add_eq_add_sub]
    have nonzero : lastPlace base count x ≠ 0 := (lastPlace_pos (by omega)).ne'
    rw [← place] at whole
    obtain ⟨k, quotient⟩ : ∃ k : ℤ, x / lastPlace base count x = k := by
      rcases abs_choice x with same | negated
      · refine ⟨k, (div_eq_iff nonzero).mpr ?_⟩
        exact same.symm.trans whole
      · refine ⟨-k, (div_eq_iff nonzero).mpr ?_⟩
        rw [Int.cast_neg, neg_mul, ← whole, negated, neg_neg]
    rw [roundingGain, quotient, halfEvenGain_intCast, zero_mul]

/-- **Few enough digits are all kept.** -/
theorem roundDigits_of_digits (one_lt : 1 < base) (digits : Digits (base : K) count x) :
    roundDigits base count x = x := by
  rw [roundDigits_eq (by omega), roundingGain_of_digits one_lt digits, add_zero]

/-- A whole bound on a number is one on the nearest whole number. -/
theorem halfEven_le {m : ℤ} (le : x ≤ m) : halfEven x ≤ m := by
  have floor : ⌊x⌋ ≤ m := by
    have := Int.floor_mono le
    rwa [Int.floor_intCast] at this
  unfold halfEven
  split
  · exact floor
  · rename_i up
    rcases floor.lt_or_eq with less | whole
    · omega
    · have below : (m : K) ≤ x := whole ▸ Int.floor_le x
      have is : x = m := le_antisymm le below
      refine absurd (Or.inl ?_) up
      rw [is, Int.fract_intCast, mul_zero]
      exact zero_lt_one

/-- **A rounded number has the digits it was rounded to.** -/
theorem roundDigits_digits (one_lt : 1 < base) (some_digit : 1 ≤ count) (nonneg : 0 ≤ x) :
    Digits (base : K) count (roundDigits base count x) := by
  have one_lt_base : (1 : K) < base := Nat.one_lt_cast.mpr one_lt
  have positive : (0 : K) < base := zero_lt_one.trans one_lt_base
  have place : 0 < lastPlace base count x := lastPlace_pos (by omega)
  obtain ⟨n, rfl⟩ := Int.eq_ofNat_of_zero_le (by omega : 0 ≤ count)
  have below : x / lastPlace base n x ≤ ((base ^ n : ℕ) : ℤ) := by
    rw [div_le_iff₀ place]
    calc x = |x| := (abs_of_nonneg nonneg).symm
      _ ≤ (base : K) ^ (Int.log base |x| + 1) := (Int.lt_zpow_succ_log_self one_lt |x|).le
      _ = (base : K) ^ (n : ℤ) * lastPlace base n x := by
          rw [lastPlace, ← zpow_add₀ positive.ne']
          congr 1
          omega
      _ = (((base ^ n : ℕ) : ℤ) : K) * lastPlace base n x := by
          push_cast
          rw [zpow_natCast]
  have whole : (halfEven (x / lastPlace base n x) : K) ≤ (base : K) ^ (n : ℤ) := by
    have := Int.cast_le (R := K).mpr (halfEven_le below)
    push_cast at this
    rwa [zpow_natCast]
  refine OnGrid.digits one_lt_base ⟨halfEven (x / lastPlace base n x), rfl⟩
    (roundDigits_nonneg (by omega) nonneg) some_digit ?_
  rw [zpow_add₀ positive.ne']
  exact mul_le_mul_of_nonneg_right whole place.le

end Tickwright.Theory
