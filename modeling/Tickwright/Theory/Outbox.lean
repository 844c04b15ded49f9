/-
# Theory.Outbox -- what was recorded, and what of it has been applied

A writer records items and keeps those the ledger has not applied on top of the
ledger's own sum.  Items carry a key, at most one of each, and an item once applied
stays applied.  `old` marks what was applied before the first of them was recorded,
`now` what is applied by now.

* `sum_since`: what was applied since and what waits still add up to everything
  recorded that was not applied before;
* `sum_applied`: applying one waiting item adds that item, once;
* `filter_later`: dropping applied items twice is dropping them once, later.
-/
import Mathlib.Algebra.BigOperators.Group.List.Basic
import Mathlib.Data.List.Nodup

namespace Tickwright.Theory

set_option autoImplicit false

universe u v w

variable {ι : Type u} {κ : Type v} {M : Type w} {old now later : ι → Bool} {items : List ι}

/-- What waits later waits now, so an earlier drop takes nothing a later one keeps. -/
theorem filter_later (grows : ∀ item, now item = true → later item = true) (items : List ι) :
    (items.filter fun item => !now item).filter (fun item => !later item) =
      items.filter fun item => !later item := by
  rw [List.filter_filter]
  refine List.filter_congr fun item _ => ?_
  cases was : now item with
  | false => simp
  | true => simp [grows item was]

variable [AddCommMonoid M] (f : ι → M)

/-- **Applied since, or waiting still.**  Nothing recorded is in both or in neither. -/
theorem sum_since (grows : ∀ item, old item = true → now item = true) (items : List ι) :
    ((items.filter fun item => now item && !old item).map f).sum +
        ((items.filter fun item => !now item).map f).sum =
      ((items.filter fun item => !old item).map f).sum := by
  induction items with
  | nil => simp
  | cons item rest ih =>
      cases is : now item with
      | false =>
          have was : old item = false := by
            by_contra before
            have after := grows item (by simpa using before)
            rw [is] at after
            cases after
          simp [is, was, ← ih, add_left_comm]
      | true =>
          cases was : old item with
          | false => simp [is, was, ← ih, add_assoc]
          | true => simp [is, was, ← ih]

variable (now) in
/-- **Applying one waiting item adds that item, once.** -/
theorem sum_applied [DecidableEq κ] {key : ι → κ} {item : ι} (once : (items.map key).Nodup)
    (there : item ∈ items) (waiting : now item = false) :
    ((items.filter fun other => decide (key other = key item) || now other).map f).sum =
      f item + ((items.filter now).map f).sum := by
  induction items with
  | nil => cases there
  | cons first rest ih =>
      obtain ⟨absent, onceRest⟩ := List.nodup_cons.mp once
      rcases List.mem_cons.mp there with rfl | tail
      · have others : rest.filter (fun other => decide (key other = key item) || now other) =
            rest.filter now := by
          refine List.filter_congr fun other member => ?_
          have ne : key other ≠ key item := fun same =>
            absent (List.mem_map.mpr ⟨other, member, same⟩)
          simp [ne]
        simp [waiting, others]
      · have ne : key first ≠ key item := fun same =>
          absent (List.mem_map.mpr ⟨item, tail, same.symm⟩)
        cases was : now first with
        | false => simp [ne, was, ih onceRest tail]
        | true => simp [ne, was, ih onceRest tail, add_left_comm]

end Tickwright.Theory
