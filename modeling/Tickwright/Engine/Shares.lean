/-
# Engine.Shares -- one bucket over the partitions of a symbol, with rounded quotients

`_share` divides a venue bucket by magnitude.  Its quotients are rounded to
28 digits, ties to even, and the last partition takes what they leave over.
`shareBy` is that loop over any division; the exact one gives `share`
(`shareBy_exact`), the rounded one `roundedShare`.

Everything the quotients gain or lose lands on the last partition:

* the shares always add up to the bucket, and every other partition's share is right
  (`others_sound`);
* the last one's share is its exact quotient less the total gain (`residue_eq`), so it
  is negative where the gains pass that quotient, and not zero on a flat partition
  unless they cancel;
* `share_sound_iff`: the shares are sound exactly where the last partition has room
  for the gains.
-/
import Mathlib.Algebra.BigOperators.Ring.List
import Mathlib.Data.List.Forall2
import Mathlib.Data.Rat.Floor
import Tickwright.Engine.Portfolio
import Tickwright.Theory.HalfEven

namespace Tickwright.Engine

open Tickwright.Domain Tickwright.Theory

set_option autoImplicit false

namespace Portfolio

/-! ## The loop -/

/-- The precision of a `Decimal` division. -/
def precision : ℤ := 28

/-- `a / b` of two decimals. -/
def divide (a b : Decimal) : Decimal := roundDigits 10 precision (a / b)

/-- `exposure`: the magnitudes of a symbol's partitions, added up. -/
def exposure (across : List Position) : Decimal :=
  (across.map fun position => |position.signedSize|).sum

/-- One round of the loop, over `shares` and `allocated`. -/
def shareStep (division : Decimal → Decimal → Decimal) (bucket weight : Decimal)
    (state : List Decimal × Decimal) (position : Position) : List Decimal × Decimal :=
  let share := division (bucket * |position.signedSize|) weight
  (state.1 ++ [share], state.2 + share)

/-- `_share`, over a division. -/
def shareBy (division : Decimal → Decimal → Decimal) (bucket : Decimal) (across : List Position) :
    List Decimal :=
  if exposure across = 0 then across.map fun _ => 0
  else
    let state := across.dropLast.foldl (shareStep division bucket (exposure across)) ([], 0)
    state.1 ++ [bucket - state.2]

/-- **`_share`**, as `Decimal` divides. -/
def roundedShare (bucket : Decimal) (across : List Position) : List Decimal :=
  shareBy divide bucket across

/-! ## What the loop makes -/

variable {division : Decimal → Decimal → Decimal} {bucket : Decimal} {across others : List Position}
  {last : Position}

theorem foldl_shareStep (division : Decimal → Decimal → Decimal) (bucket weight : Decimal)
    (positions : List Position) (state : List Decimal × Decimal) :
    let quotients := positions.map fun position =>
      division (bucket * |position.signedSize|) weight
    positions.foldl (shareStep division bucket weight) state =
      (state.1 ++ quotients, state.2 + quotients.sum) := by
  induction positions generalizing state with
  | nil => simp
  | cons position rest ih =>
      simp only [List.foldl_cons, ih, shareStep, List.map_cons, List.sum_cons]
      simp [add_assoc]

/-- The quotients of all partitions but the last, and the residue. -/
theorem shareBy_eq (exposed : exposure (others ++ [last]) ≠ 0) :
    let quotients := others.map fun position =>
      division (bucket * |position.signedSize|) (exposure (others ++ [last]))
    shareBy division bucket (others ++ [last]) = quotients ++ [bucket - quotients.sum] := by
  simp [shareBy, exposed, foldl_shareStep]

/-- **Over the exact division the loop is the portfolio's `share`.** -/
theorem shareBy_exact (bucket : Decimal) (across : List Position) :
    shareBy (· / ·) bucket across = share bucket across := by
  by_cases bare : exposure across = 0
  · have sizes : (across.map fun position => |position.signedSize|).sum = 0 := bare
    simp [shareBy, share, bare, sizes]
  · rcases List.eq_nil_or_concat' across with rfl | ⟨others, last, rfl⟩
    · exact absurd rfl bare
    · rw [shareBy_eq bare]
      have sizes : ((others ++ [last]).map fun position => |position.signedSize|).sum ≠ 0 := bare
      simp only [share, sizes, if_false, shareOut, exposure]
      simp [Function.comp_def]

theorem exposure_nonneg (across : List Position) : 0 ≤ exposure across := by
  refine List.sum_nonneg fun size member => ?_
  obtain ⟨position, -, rfl⟩ := List.mem_map.mp member
  exact abs_nonneg _

theorem exposure_pos (exposed : ∃ position ∈ across, ¬position.isFlat) : 0 < exposure across := by
  obtain ⟨position, member, held⟩ := exposed
  have size : 0 < |position.signedSize| := by
    simpa [Position.isFlat] using held
  have part : |position.signedSize| ≤ exposure across := by
    refine List.single_le_sum (fun size member => ?_) _ (List.mem_map.mpr ⟨position, member, rfl⟩)
    obtain ⟨other, -, rfl⟩ := List.mem_map.mp member
    exact abs_nonneg _
  linarith

/-! ## Sound shares -/

/-- One partition's exact share of the bucket. -/
def exactShare (bucket : Decimal) (across : List Position) (position : Position) : Decimal :=
  bucket * |position.signedSize| / exposure across

/-- What the rounding adds to the exact shares of `others`, in total. -/
def totalGain (bucket : Decimal) (across others : List Position) : Decimal :=
  (others.map fun position => roundingGain 10 precision (exactShare bucket across position)).sum

/-- The shares a bucket should come to: one for each partition, together the bucket,
none negative, and nothing on a flat one. -/
def SoundShares (bucket : Decimal) (across : List Position) (shares : List Decimal) : Prop :=
  shares.sum = bucket ∧
    List.Forall₂ (fun position share => 0 ≤ share ∧ (position.isFlat → share = 0)) across shares

/-- **The last partition has room for the rounding**: what it adds to the exact shares
of the others is at most the last one's own, and is nothing where that one is flat. -/
def HasRoom (bucket : Decimal) (across : List Position) : Prop :=
  ∀ others last, across = others ++ [last] →
    totalGain bucket across others ≤ exactShare bucket across last ∧
      (last.isFlat → totalGain bucket across others = 0)

theorem forall₂_concat {α β : Type*} {R : α → β → Prop} {xs : List α} {ys : List β} {x : α}
    {y : β} :
    List.Forall₂ R (xs ++ [x]) (ys ++ [y]) ↔ List.Forall₂ R xs ys ∧ R x y := by
  rw [← List.forall₂_reverse_iff]
  simp [and_comm]

theorem sum_exactShare (bucket : Decimal) (exposed : exposure across ≠ 0) :
    (across.map (exactShare bucket across)).sum = bucket := by
  have scaled : across.map (exactShare bucket across) =
      across.map fun position => bucket / exposure across * |position.signedSize| := by
    refine List.map_congr_left fun position _ => ?_
    rw [exactShare]
    ring
  rw [scaled, List.sum_map_mul_left]
  exact div_mul_cancel₀ bucket exposed

/-- A quotient is the exact share and what the rounding adds to it. -/
theorem divide_eq (bucket : Decimal) (across : List Position) (position : Position) :
    divide (bucket * |position.signedSize|) (exposure across) = exactShare bucket across position +
      roundingGain 10 precision (exactShare bucket across position) :=
  roundDigits_eq (by decide) _

/-- **The residue is the last partition's exact share, less what the others gained.** -/
theorem residue_eq (bucket : Decimal) (exposed : exposure (others ++ [last]) ≠ 0) :
    bucket - (others.map fun position =>
      divide (bucket * |position.signedSize|) (exposure (others ++ [last]))).sum =
      exactShare bucket (others ++ [last]) last - totalGain bucket (others ++ [last]) others := by
  have whole := sum_exactShare bucket exposed
  have quotients := List.sum_map_add (l := others)
    (f := exactShare bucket (others ++ [last]))
    (g := fun position => roundingGain 10 precision (exactShare bucket (others ++ [last]) position))
  simp only [← divide_eq] at quotients
  rw [List.map_append, List.sum_append, List.map_singleton, List.sum_singleton] at whole
  rw [quotients, totalGain]
  linarith

/-- Every partition but the last has a sound share. -/
theorem others_sound (nonneg : 0 ≤ bucket) (positions : List Position) :
    List.Forall₂ (fun position share => 0 ≤ share ∧ (position.isFlat → share = 0)) positions
      (positions.map fun position =>
        divide (bucket * |position.signedSize|) (exposure across)) := by
  rw [List.forall₂_map_right_iff, List.forall₂_same]
  intro position _
  refine ⟨roundDigits_nonneg (by decide) ?_, fun flat => ?_⟩
  · exact div_nonneg (mul_nonneg nonneg (abs_nonneg _)) (exposure_nonneg _)
  · have size : position.signedSize = 0 := by simpa [Position.isFlat] using flat
    rw [divide_eq, exactShare, size]
    simp

/-- **The shares of a bucket are sound exactly where the last partition has room for
the rounding of the others.** -/
theorem share_sound_iff (nonneg : 0 ≤ bucket)
    (exposed : ∃ position ∈ across, ¬position.isFlat) :
    SoundShares bucket across (roundedShare bucket across) ↔ HasRoom bucket across := by
  have weight : exposure across ≠ 0 := (exposure_pos exposed).ne'
  rcases List.eq_nil_or_concat' across with rfl | ⟨others, last, rfl⟩
  · exact absurd rfl weight
  · have whole : (roundedShare bucket (others ++ [last])).sum = bucket := by
      rw [roundedShare, shareBy_eq weight]
      simp
    have room : HasRoom bucket (others ++ [last]) ↔
        totalGain bucket (others ++ [last]) others ≤ exactShare bucket (others ++ [last]) last ∧
          (last.isFlat → totalGain bucket (others ++ [last]) others = 0) := by
      refine ⟨fun has => has others last rfl, fun has others' last' same => ?_⟩
      obtain ⟨rfl, rest⟩ := List.append_inj' same rfl
      obtain rfl := List.singleton_inj.mp rest
      exact has
    have residue := residue_eq bucket weight
    have flatShare : last.isFlat → exactShare bucket (others ++ [last]) last = 0 := by
      intro flat
      have size : last.signedSize = 0 := by simpa [Position.isFlat] using flat
      simp [exactShare, size]
    rw [room, SoundShares, and_iff_right whole, roundedShare, shareBy_eq weight, residue,
      forall₂_concat, and_iff_right (others_sound nonneg others)]
    constructor
    · rintro ⟨positive, flat⟩
      refine ⟨by linarith, fun isFlat => ?_⟩
      have none := flat isFlat
      rw [flatShare isFlat] at none
      linarith
    · rintro ⟨fits, cancels⟩
      refine ⟨by linarith, fun isFlat => ?_⟩
      rw [flatShare isFlat, cancels isFlat, sub_zero]

/-! ## Where there is room -/

/-- Exact shares of at most 28 digits gain nothing. -/
theorem hasRoom_of_short (nonneg : 0 ≤ bucket)
    (short : ∀ position ∈ across.dropLast,
      Digits ((10 : ℕ) : ℚ) precision (exactShare bucket across position)) :
    HasRoom bucket across := by
  rintro others last rfl
  have signed : ∀ position, 0 ≤ exactShare bucket (others ++ [last]) position := fun position =>
    div_nonneg (mul_nonneg nonneg (abs_nonneg _)) (exposure_nonneg _)
  have gains : totalGain bucket (others ++ [last]) others = 0 := by
    refine List.sum_eq_zero fun gain member => ?_
    obtain ⟨position, there, rfl⟩ := List.mem_map.mp member
    have digits := short position (by simpa using there)
    exact roundingGain_of_digits (by decide) digits
  exact ⟨by rw [gains]; exact signed last, fun _ => gains⟩

/-- A last partition with half a last place of every other exact share has room. -/
theorem hasRoom_of_large
    (large : ∀ others last, across = others ++ [last] → ¬last.isFlat ∧
      (others.map fun position => lastPlace 10 precision (exactShare bucket across position)).sum ≤
        2 * exactShare bucket across last) :
    HasRoom bucket across := by
  intro others last same
  obtain ⟨held, room⟩ := large others last same
  have gains : 2 * totalGain bucket across others ≤ (others.map fun position =>
      lastPlace 10 precision (exactShare bucket across position)).sum := by
    rw [totalGain, ← List.sum_map_mul_left]
    refine List.sum_le_sum fun position _ => ?_
    have most : 2 * |roundingGain 10 precision (exactShare bucket across position)| ≤
        lastPlace 10 precision (exactShare bucket across position) :=
      two_mul_abs_roundingGain_le (by decide) _
    have least := le_abs_self (roundingGain 10 precision (exactShare bucket across position))
    linarith
  exact ⟨by linarith, fun flat => absurd flat held⟩

/-! ## Sample buckets -/

namespace Sample

/-- One partition of each owner, filed in this order. -/
def legs (sizes : List (StrategyId × Decimal)) : List Position :=
  sizes.map fun leg => { owner := some leg.1, symbol := "ETH", signedSize := leg.2 }

/-- Three partitions of one size, the second short. -/
def threeLegs : List Position :=
  legs [(⟨"east", by decide⟩, 1), (⟨"north", by decide⟩, -1), (⟨"west", by decide⟩, 1)]

theorem share_sound_threeLegs : SoundShares 1 threeLegs (roundedShare 1 threeLegs) := by
  have exposed : ∃ position ∈ threeLegs, ¬position.isFlat := by decide +kernel
  refine (share_sound_iff (by decide) exposed).mpr fun others last same => ?_
  have parts : threeLegs.dropLast = others ∧ threeLegs.getLast? = some last := by simp [same]
  obtain ⟨rfl, ends⟩ := parts
  obtain rfl : threeLegs.getLast (by decide) = last := by
    simpa [List.getLast?_eq_getLast_of_ne_nil, threeLegs, legs] using ends
  exact ⟨by decide +kernel, by decide +kernel⟩

/-- The same, and one that was closed. -/
def closedLast : List Position :=
  legs [(⟨"east", by decide⟩, 1), (⟨"north", by decide⟩, -1), (⟨"west", by decide⟩, 1),
    (⟨"south", by decide⟩, 0)]

theorem flat_takes_residue :
    (∃ position ∈ closedLast, ¬position.isFlat) ∧
    (roundedShare 1 closedLast).getLast? = some (10 ^ (-28 : ℤ)) ∧
    ¬SoundShares 1 closedLast (roundedShare 1 closedLast) := by
  refine ⟨by decide +kernel, by decide +kernel, ?_⟩
  unfold SoundShares
  decide +kernel

example : (roundedShare (4 / 5) closedLast).getLast? = some (-10 ^ (-28 : ℤ)) := by
  decide +kernel

end Sample

end Portfolio

end Tickwright.Engine
