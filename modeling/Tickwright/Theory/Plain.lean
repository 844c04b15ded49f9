/-
# Theory.Plain -- rational numbers in plain decimal notation

`plain` writes a number in base ten with no exponent: a sign, the whole part, and after
a point as many places as the number needs and no more.  `ofPlain` reads such a text.

* a number has places where its denominator divides a power of ten (`Terminates`), and
  few enough of them to be searched for (`places_spec`);
* what is written is read back as the same number (`ofPlain_plain`);
* no zero ends the places (`plain_trimmed`).
-/
import Mathlib.Data.Rat.Floor
import Mathlib.Data.Nat.Log
import Mathlib.Data.Nat.Prime.Basic
import Mathlib.Tactic.FieldSimp
import Mathlib.Tactic.Ring

namespace Tickwright.Theory

set_option autoImplicit false

/-! ## Places -/

/-- So many places write the number. -/
def Terminates (x : ℚ) : Prop := ∃ count : ℕ, x.den ∣ 10 ^ count

/-- The fewest places that write the number. -/
def places (x : ℚ) : ℕ :=
  ((List.range (Nat.log 2 x.den + 1)).find? fun count => decide (x.den ∣ 10 ^ count)).getD 0

/-- The number without its point. -/
def scaled (x : ℚ) : ℕ := x.num.natAbs * (10 ^ places x / x.den)

theorem ten_pow (count : ℕ) : 10 ^ count = 2 ^ count * 5 ^ count := Nat.mul_pow 2 5 count

/-- A divisor of a power of ten divides a small one. -/
theorem dvd_ten_pow_log {d count : ℕ} (divides : d ∣ 10 ^ count) : d ∣ 10 ^ Nat.log 2 d := by
  rw [ten_pow] at divides
  obtain ⟨two, five, twos, fives, rfl⟩ := (Nat.dvd_mul).mp divides
  obtain ⟨a, _, rfl⟩ := (Nat.dvd_prime_pow Nat.prime_two).mp twos
  obtain ⟨b, _, rfl⟩ := (Nat.dvd_prime_pow Nat.prime_five).mp fives
  have a_le : a ≤ Nat.log 2 (2 ^ a * 5 ^ b) :=
    Nat.le_log_of_pow_le (by norm_num) (Nat.le_mul_of_pos_right _ (by positivity))
  have b_le : b ≤ Nat.log 2 (2 ^ a * 5 ^ b) := by
    refine Nat.le_log_of_pow_le (by norm_num) ?_
    calc 2 ^ b ≤ 5 ^ b := Nat.pow_le_pow_left (by norm_num) b
      _ ≤ 2 ^ a * 5 ^ b := Nat.le_mul_of_pos_left _ (by positivity)
  rw [ten_pow]
  exact Nat.mul_dvd_mul (pow_dvd_pow 2 a_le) (pow_dvd_pow 5 b_le)

/-- **The places write the number, and fewer do not.** -/
theorem places_spec {x : ℚ} (terminates : Terminates x) :
    x.den ∣ 10 ^ places x ∧ ∀ fewer < places x, ¬ x.den ∣ 10 ^ fewer := by
  obtain ⟨count, divides⟩ := terminates
  have few := dvd_ten_pow_log divides
  obtain ⟨least, found⟩ : ∃ least, (List.range (Nat.log 2 x.den + 1)).find?
      (fun count => decide (x.den ∣ 10 ^ count)) = some least := by
    rw [← Option.isSome_iff_exists, List.find?_isSome]
    exact ⟨_, List.mem_range.mpr (Nat.lt_succ_self _), decide_eq_true few⟩
  have is : places x = least := by rw [places, found]; rfl
  rw [is]
  obtain ⟨divides, _, before⟩ := List.find?_range_eq_some.mp found
  refine ⟨of_decide_eq_true divides, fun fewer less => ?_⟩
  simpa using before fewer less

theorem scaled_mul_den {x : ℚ} (terminates : Terminates x) :
    scaled x * x.den = x.num.natAbs * 10 ^ places x := by
  rw [scaled, mul_assoc, Nat.div_mul_cancel (places_spec terminates).1]

theorem scaled_div {x : ℚ} (terminates : Terminates x) :
    (scaled x : ℚ) / 10 ^ places x = |x| := by
  have whole : (scaled x : ℚ) * x.den = x.num.natAbs * 10 ^ places x := by
    exact_mod_cast scaled_mul_den terminates
  have den : (x.den : ℚ) ≠ 0 := Nat.cast_ne_zero.mpr x.den_nz
  have tens : (10 : ℚ) ^ places x ≠ 0 := by positivity
  have size : |x| = (x.num.natAbs : ℚ) / x.den := by
    rw [Nat.cast_natAbs, Int.cast_abs]
    conv_lhs => rw [← Rat.num_div_den x, abs_div]
    rw [Nat.abs_cast]
  rw [size, div_eq_div_iff tens den, whole]

/-- The last digit of the places is not zero. -/
theorem scaled_mod_ten {x : ℚ} (terminates : Terminates x) (some_ : 0 < places x) :
    scaled x % 10 ≠ 0 := by
  intro zero
  obtain ⟨tenth, is⟩ := Nat.dvd_of_mod_eq_zero zero
  obtain ⟨fewer, same⟩ : ∃ fewer, places x = fewer + 1 := ⟨places x - 1, by omega⟩
  have whole := scaled_mul_den terminates
  rw [is, same, pow_succ] at whole
  have cancelled : tenth * x.den = x.num.natAbs * 10 ^ fewer := by nlinarith
  have divides : x.den ∣ x.num.natAbs * 10 ^ fewer := ⟨tenth, by rw [← cancelled, mul_comm]⟩
  have apart : Nat.Coprime x.den x.num.natAbs := x.reduced.symm
  exact (places_spec terminates).2 fewer (by omega) (apart.dvd_of_dvd_mul_left divides)

/-- What lies on a grid of tenths terminates. -/
theorem terminates_of_mul {x : ℚ} {k : ℤ} (count : ℕ) (on : x * 10 ^ count = k) :
    Terminates x := by
  refine ⟨count, ?_⟩
  have whole : x = Rat.divInt k (10 ^ count : ℕ) := by
    rw [Rat.divInt_eq_div]
    push_cast
    rw [← on, mul_div_cancel_right₀ _ (by positivity)]
  rw [whole]
  exact_mod_cast Rat.den_dvd k (10 ^ count : ℕ)

/-! ## Writing -/

/-- The last `count` digits of a number, with zeros in front where it has fewer. -/
def lastDigits : ℕ → ℕ → List Char
  | 0, _ => []
  | count + 1, n => lastDigits count (n / 10) ++ [(n % 10).digitChar]

/-- A number in plain notation. -/
def plain (x : ℚ) : List Char :=
  (if x < 0 then ['-'] else []) ++ (Nat.toDigits 10 (scaled x / 10 ^ places x) ++
    if places x = 0 then [] else '.' :: lastDigits (places x) (scaled x))

/-- No zero ends what stands after the point. -/
def Trimmed (text : List Char) : Prop := '.' ∈ text → text.getLast? ≠ some '0'

@[simp] theorem length_lastDigits (count n : ℕ) : (lastDigits count n).length = count := by
  induction count generalizing n with
  | zero => rfl
  | succ count ih => simp [lastDigits, ih]

theorem isDigit_of_mem_lastDigits {count n : ℕ} {c : Char} (member : c ∈ lastDigits count n) :
    c.isDigit = true := by
  induction count generalizing n with
  | zero => cases member
  | succ count ih =>
      rcases List.mem_append.mp member with front | last
      · exact ih front
      · rw [List.mem_singleton.mp last]
        rw [Nat.isDigit_digitChar]
        exact decide_eq_true (Nat.mod_lt _ (by norm_num))

/-- **What is written is trimmed.** -/
theorem plain_trimmed {x : ℚ} (terminates : Terminates x) : Trimmed (plain x) := by
  intro point
  rw [plain] at point ⊢
  have pointless : '.' ∉ Nat.toDigits 10 (scaled x / 10 ^ places x) := fun member => by
    have digit := Nat.isDigit_of_mem_toDigits (by norm_num) (by norm_num) member
    simp at digit
  cases count : places x with
  | zero =>
      rw [count, if_pos rfl, List.append_nil] at point
      rcases List.mem_append.mp point with sign | whole
      · split at sign <;> simp at sign
      · rw [count] at pointless
        exact absurd whole pointless
  | succ count' =>
      have ends := scaled_mod_ten terminates (by omega)
      rw [if_neg (Nat.succ_ne_zero _), lastDigits, ← List.cons_append, ← List.append_assoc,
        ← List.append_assoc, List.getLast?_concat]
      intro zero
      exact ends (Nat.digitChar_eq_zero.mp (Option.some.inj zero))

theorem ofDigitChars_lastDigits (count n init : ℕ) :
    Nat.ofDigitChars 10 (lastDigits count n) init = init * 10 ^ count + n % 10 ^ count := by
  induction count generalizing n with
  | zero => simp [lastDigits, Nat.mod_one]
  | succ count ih =>
      have small : n % 10 < 10 := Nat.mod_lt _ (by norm_num)
      have step : n % (10 * 10 ^ count) = n % 10 + 10 * (n / 10 % 10 ^ count) := Nat.mod_mul
      rw [lastDigits, Nat.ofDigitChars_append, ih,
        Nat.ofDigitChars_cons_digitChar_of_lt_ten small, Nat.ofDigitChars_nil, pow_succ,
        mul_comm (10 ^ count) 10, step]
      ring

/-! ## Reading -/

/-- A text without a sign. -/
def ofUnsigned (text : List Char) : Option ℚ :=
  let whole := text.takeWhile Char.isDigit
  if whole = [] then none
  else
    match text.dropWhile Char.isDigit with
    | [] => some (Nat.ofDigitChars 10 whole 0 : ℕ)
    | point :: places =>
        if point = '.' ∧ places ≠ [] ∧ places.all Char.isDigit = true then
          some ((Nat.ofDigitChars 10 (whole ++ places) 0 : ℕ) / 10 ^ places.length)
        else none

/-- The number a text in plain notation writes. -/
def ofPlain : List Char → Option ℚ
  | [] => none
  | c :: rest => if c = '-' then (ofUnsigned rest).map Neg.neg else ofUnsigned (c :: rest)

theorem takeWhile_digits {digits : List Char} (rest : List Char)
    (all : ∀ c ∈ digits, c.isDigit = true)
    (ends : rest.head?.all fun c => !c.isDigit) :
    (digits ++ rest).takeWhile Char.isDigit = digits ∧
      (digits ++ rest).dropWhile Char.isDigit = rest := by
  have stops : rest.takeWhile Char.isDigit = [] ∧ rest.dropWhile Char.isDigit = rest := by
    cases rest with
    | nil => exact ⟨rfl, rfl⟩
    | cons c rest =>
        have not_digit : c.isDigit = false := by simpa using ends
        simp [not_digit]
  constructor
  · rw [List.takeWhile_append_of_pos all, stops.1, List.append_nil]
  · rw [List.dropWhile_append_of_pos all, stops.2]

theorem ofUnsigned_written {x : ℚ} (terminates : Terminates x) :
    ofUnsigned (Nat.toDigits 10 (scaled x / 10 ^ places x) ++
      if places x = 0 then [] else '.' :: lastDigits (places x) (scaled x)) = some |x| := by
  have all : ∀ c ∈ Nat.toDigits 10 (scaled x / 10 ^ places x), c.isDigit = true :=
    fun c member => Nat.isDigit_of_mem_toDigits (by norm_num) (by norm_num) member
  have some_ : Nat.toDigits 10 (scaled x / 10 ^ places x) ≠ [] := Nat.toDigits_ne_nil
  have size := scaled_div terminates
  by_cases none_ : places x = 0
  · rw [if_pos none_]
    obtain ⟨whole, rest⟩ := takeWhile_digits [] all rfl
    rw [none_, pow_zero, div_one] at size
    simp only [ofUnsigned, whole, rest, if_neg some_, Nat.ofDigitChars_ten_toDigits]
    rw [none_, pow_zero, Nat.div_one, size]
  · rw [if_neg none_]
    obtain ⟨whole, rest⟩ := takeWhile_digits ('.' :: lastDigits (places x) (scaled x)) all rfl
    have digits : (lastDigits (places x) (scaled x)).all Char.isDigit = true :=
      List.all_eq_true.mpr fun c member => isDigit_of_mem_lastDigits member
    have filled : lastDigits (places x) (scaled x) ≠ [] := by
      intro empty
      have := congrArg List.length empty
      rw [length_lastDigits] at this
      exact none_ this
    have value : Nat.ofDigitChars 10 (Nat.toDigits 10 (scaled x / 10 ^ places x) ++
        lastDigits (places x) (scaled x)) 0 = scaled x := by
      rw [Nat.ofDigitChars_append, Nat.ofDigitChars_ten_toDigits, ofDigitChars_lastDigits,
        Nat.div_add_mod']
    rw [ofUnsigned]
    simp only [whole, rest, if_neg some_, value, length_lastDigits]
    rw [if_pos ⟨trivial, filled, digits⟩, size]

/-- **What is written is read back.** -/
theorem ofPlain_plain {x : ℚ} (terminates : Terminates x) : ofPlain (plain x) = some x := by
  have written := ofUnsigned_written terminates
  rw [plain]
  by_cases negative : x < 0
  · rw [if_pos negative, List.singleton_append, ofPlain, if_pos rfl, written, abs_of_neg negative]
    simp
  · rw [if_neg negative, List.nil_append]
    rw [abs_of_nonneg (not_lt.mp negative)] at written
    cases digits : Nat.toDigits 10 (scaled x / 10 ^ places x) with
    | nil => exact absurd digits Nat.toDigits_ne_nil
    | cons c rest =>
        rw [digits] at written
        have digit : c.isDigit = true := Nat.isDigit_of_mem_toDigits (by norm_num) (by norm_num)
          (show c ∈ Nat.toDigits 10 (scaled x / 10 ^ places x) by simp [digits])
        have signless : c ≠ '-' := by
          rintro rfl
          simp at digit
        rw [List.cons_append, ofPlain, if_neg signless]
        exact written

end Tickwright.Theory
