/-
# Theory.Split -- texts cut from the right, and whole numbers written out

`cutLast` cuts a list at its last separator, `rsplit` makes at most so many cuts from
the right.  A cut is exact: it gives two parts back precisely when they make the list
and no separator is in the second (`cutLast_eq_some`), so two texts joined at a
separator that their backs (or their fronts) leave out are equal exactly when their
parts are (`cons_inj_of_back`, `cons_inj_of_front`).

`decimal` writes an integer in base ten.  No digit is a separator, and the text
determines the number (`decimal_injective`).
-/
import Mathlib.Data.Int.Notation
import Mathlib.Data.List.Basic

namespace Tickwright.Theory

set_option autoImplicit false

universe u

/-! ## Cuts -/

section Cuts

variable {α : Type u} [DecidableEq α] {sep : α} {xs front back : List α}

/-- Cut at the last `sep`. -/
def cutLast (sep : α) : List α → Option (List α × List α)
  | [] => none
  | x :: rest =>
      match cutLast sep rest with
      | some (front, back) => some (x :: front, back)
      | none => if x = sep then some ([], rest) else none

/-- At most `count` cuts, from the right. -/
def rsplit (sep : α) : ℕ → List α → List (List α)
  | 0, xs => [xs]
  | count + 1, xs =>
      match cutLast sep xs with
      | none => [xs]
      | some (front, back) => rsplit sep count front ++ [back]

theorem cutLast_eq_none : cutLast sep xs = none ↔ sep ∉ xs := by
  induction xs with
  | nil => simp [cutLast]
  | cons x rest ih =>
      simp only [cutLast]
      cases cut : cutLast sep rest with
      | some parts => simp [not_imp_comm.mp ih.mpr (by simp [cut])]
      | none => simp [ih.mp cut, eq_comm]

theorem cutLast_append (out : sep ∉ back) :
    cutLast sep (front ++ sep :: back) = some (front, back) := by
  induction front with
  | nil => simp [cutLast, cutLast_eq_none.mpr out]
  | cons x more ih => simp [cutLast, ih]

theorem joined_of_cutLast (cut : cutLast sep xs = some (front, back)) :
    xs = front ++ sep :: back ∧ sep ∉ back := by
  induction xs generalizing front with
  | nil => cases cut
  | cons x rest ih =>
      simp only [cutLast] at cut
      cases inner : cutLast sep rest with
      | some parts =>
          rw [inner] at cut
          cases cut
          obtain ⟨rfl, out⟩ := ih inner
          exact ⟨rfl, out⟩
      | none =>
          rw [inner] at cut
          simp only at cut
          split at cut
          · rename_i here
            cases cut
            exact ⟨here ▸ rfl, cutLast_eq_none.mp inner⟩
          · cases cut

/-- **A cut gives two parts exactly when they make the list and the second has no
separator.** -/
theorem cutLast_eq_some :
    cutLast sep xs = some (front, back) ↔ xs = front ++ sep :: back ∧ sep ∉ back :=
  ⟨joined_of_cutLast, fun ⟨joined, out⟩ => joined ▸ cutLast_append out⟩

/-- Two cuts give three parts back exactly when the last two have no separator. -/
theorem rsplit_two {a b c : List α} :
    rsplit sep 2 xs = [a, b, c] ↔
      xs = a ++ sep :: (b ++ sep :: c) ∧ sep ∉ b ∧ sep ∉ c := by
  have joined : a ++ sep :: (b ++ sep :: c) = (a ++ sep :: b) ++ sep :: c := by simp
  constructor
  · intro split
    simp only [rsplit] at split
    cases last : cutLast sep xs with
    | none => simp [last] at split
    | some parts =>
        obtain ⟨front, back⟩ := parts
        cases second : cutLast sep front with
        | none => simp [last, second] at split
        | some inner =>
            obtain ⟨rfl, outBack⟩ := joined_of_cutLast last
            obtain ⟨rfl, outInner⟩ := joined_of_cutLast second
            simp only [last, second, List.cons_append, List.nil_append, List.cons.injEq, and_true]
              at split
            obtain ⟨rfl, rfl, rfl⟩ := split
            exact ⟨joined.symm, outInner, outBack⟩
  · rintro ⟨rfl, outB, outC⟩
    simp only [rsplit]
    rw [joined, cutLast_append outC]
    simp only [cutLast_append outB]
    rfl

/-- Texts whose backs leave the separator out are equal part for part. -/
theorem cons_inj_of_back {front' back' : List α} (out : sep ∉ back) (out' : sep ∉ back') :
    front ++ sep :: back = front' ++ sep :: back' ↔ front = front' ∧ back = back' := by
  constructor
  · intro same
    have cut : cutLast sep (front ++ sep :: back) = _ := cutLast_append out
    rw [same, cutLast_append out'] at cut
    cases cut
    exact ⟨rfl, rfl⟩
  · rintro ⟨rfl, rfl⟩
    rfl

/-- Texts whose fronts leave the separator out are equal part for part. -/
theorem cons_inj_of_front {front' back' : List α} (out : sep ∉ front) (out' : sep ∉ front') :
    front ++ sep :: back = front' ++ sep :: back' ↔ front = front' ∧ back = back' := by
  have mirrored : back.reverse ++ sep :: front.reverse = back'.reverse ++ sep :: front'.reverse ↔
      _ := cons_inj_of_back (mt List.mem_reverse.mp out) (mt List.mem_reverse.mp out')
  rw [List.reverse_inj, List.reverse_inj] at mirrored
  rw [and_comm, ← mirrored, ← List.reverse_inj]
  simp

end Cuts

/-! ## Numbers -/

/-- `n`, written in base ten. -/
def decimal : ℤ → List Char
  | .ofNat n => Nat.toDigits 10 n
  | .negSucc n => '-' :: Nat.toDigits 10 (n + 1)

theorem isDigit_of_mem_toDigits {n : ℕ} {c : Char} (member : c ∈ Nat.toDigits 10 n) :
    c.isDigit = true :=
  Nat.isDigit_of_mem_toDigits (by decide) (by decide) member

theorem not_mem_decimal {n : ℤ} {c : Char} (digit : c.isDigit = false) (sign : c ≠ '-') :
    c ∉ decimal n := by
  cases n with
  | ofNat n => exact fun member => by simp [isDigit_of_mem_toDigits member] at digit
  | negSucc n =>
      intro member
      rcases List.mem_cons.mp member with rfl | member
      · exact sign rfl
      · simp [isDigit_of_mem_toDigits member] at digit

theorem toDigits_injective : Function.Injective (Nat.toDigits 10) := fun a b same => by
  rw [← Nat.ofDigitChars_ten_toDigits (n := a), same, Nat.ofDigitChars_ten_toDigits]

theorem decimal_injective : Function.Injective decimal := by
  have unsigned (n : ℕ) (rest : List Char) : Nat.toDigits 10 n ≠ '-' :: rest := fun same => by
    have digit : '-'.isDigit = true :=
      isDigit_of_mem_toDigits (same ▸ List.mem_cons_self : '-' ∈ Nat.toDigits 10 n)
    cases digit
  intro a b same
  cases a with
  | ofNat a =>
      cases b with
      | ofNat b => rw [toDigits_injective same]
      | negSucc b => exact absurd same (unsigned a _)
  | negSucc a =>
      cases b with
      | ofNat b => exact absurd same.symm (unsigned b _)
      | negSucc b =>
          have magnitudes := toDigits_injective (List.cons.inj same).2
          rw [Nat.succ.inj magnitudes]

end Tickwright.Theory
