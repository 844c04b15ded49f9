/-
# Engine.FlattenSplit -- a flatten order's fill, split over every partition

A flatten order closes the account net, so no single partition owns its fills.
The split reads the partition sizes taken at place (`basis`), the lot size and
the cumulative fill, and nothing else, so a fill booked again after a crash
gives the same moves.

Lots are integers: `truncate` is the source's `int`, which drops the fraction
toward zero, and the floor product is Python's `//`.  A basis whose two sides
hold the same number of lots divides by zero, as the source does.
-/
import Tickwright.Domain.Venue
import Tickwright.Theory.Dict
import Mathlib.Data.Int.Log
import Mathlib.Data.Rat.Floor
import Mathlib.Data.List.Sort
import Mathlib.Data.String.Basic

namespace Tickwright.Engine

open Tickwright.Domain Tickwright.Theory

set_option autoImplicit false

/-- Each partition's signed size when the order was placed, by stored owner. -/
abbrev Basis := List (String × Decimal)

/-- One partition's piece of one flatten fill. -/
structure PartitionMove where
  /-- The signed change toward zero. -/
  size : Decimal
  fee : Decimal
deriving DecidableEq

/-- Why a split could not be computed. -/
inductive SplitFault
  /-- `cannot split a flatten fill over a basis with no net` -/
  | noNet (basis : Basis)
  /-- `flatten fill of {cum_qty} is past the basis net of {net}` -/
  | pastNet (cumQty net : Decimal)
  /-- `ZeroDivisionError`: both sides hold the same number of whole lots. -/
  | zeroDivision
deriving DecidableEq

/-- `int(x)` of a `Decimal`: the fraction is dropped toward zero. -/
def truncate (x : Decimal) : ℤ := if 0 ≤ x then ⌊x⌋ else ⌈x⌉

/-- The nearest integer, a tie to the even one (`ROUND_HALF_EVEN`). -/
def roundHalfEven (x : Decimal) : ℤ :=
  let below := ⌊x⌋
  let part := x - below
  if part < 1 / 2 then below
  else if 1 / 2 < part then below + 1
  else if below % 2 = 0 then below else below + 1

/-- `x.quantize(step)`. -/
def quantize (x step : Decimal) : Decimal := roundHalfEven (x / step) * step

def basisNet (basis : Basis) : Decimal := (basis.map Prod.snd).sum

/-- Why a flatten order could not split over `basis`, or `none`. -/
def splitRefusal (basis : Basis) (side : Side) (quantity : Decimal) : Option String :=
  let net := basisNet basis
  if net = 0 then
    some "a flatten order needs a net position to close"
  else if decide (side = .sell) ≠ decide (0 < net) then
    some "a flatten order must trade against the net position"
  else if |net| < quantity then
    some "a flatten order may not trade more than the net position"
  else
    none

/-- The owners in the order `sorted` gives them. -/
def sortedOwners (owners : List String) : List String :=
  owners.insertionSort (· ≤ ·)

/-- The first of `owners` with the largest key, as `max` picks it. -/
def firstMax {κ : Type*} [LinearOrder κ] (key : String → κ) : List String → Option String
  | [] => none
  | owner :: rest =>
      some (rest.foldl (fun best other => if key best < key other then other else best) owner)

/-- Give `total` lots one at a time, each to the partition furthest behind its
exact share. -/
def handOut (lots : Dict String ℤ) (total : ℤ) : Dict String ℤ :=
  let sideLots := lots.values.sum
  let ordered := sortedOwners lots.keys
  (List.range total.toNat).foldl
    (fun got i =>
      let handed : ℤ := i + 1
      let behind := fun owner =>
        (lots.get owner).getD 0 * handed - (got.get owner).getD 0 * sideLots
      match firstMax behind ordered with
      | none => got
      | some best => got.set best ((got.get best).getD 0 + 1))
    (lots.map fun _ => 0)

/-- Whole lots per partition on one side of the net. -/
def sideLots (basis : Basis) (lotSize : Decimal) (onSide : Decimal → Bool) : Dict String ℤ :=
  Dict.empty.setAll
    ((basis.filter fun entry => onSide entry.2).map fun entry =>
      (entry.1, truncate (|entry.2| / lotSize)))

/-- Each partition's total move toward zero after `filled` of the order. -/
def totalMoves (basis : Basis) (lotSize filled : Decimal) :
    Except SplitFault (List (String × Decimal)) :=
  let netLong := decide (0 < basisNet basis)
  let withNet := sideLots basis lotSize fun size => decide (0 < size) == netLong
  let against := sideLots basis lotSize fun size => decide (0 < size) != netLong
  let withLots := withNet.values.sum
  let againstLots := against.values.sum
  let fillLots := truncate (filled / lotSize)
  if withLots - againstLots = 0 then
    .error .zeroDivision
  else
    let withMoved := Int.fdiv (withLots * fillLots) (withLots - againstLots)
    let gotWith := handOut withNet withMoved
    let gotAgainst := handOut against (withMoved - fillLots)
    let got := fun owner => ((gotAgainst.get owner).or (gotWith.get owner)).getD 0
    .ok (basis.map fun entry =>
      (entry.1, (if 0 < entry.2 then -1 else 1) * (got entry.1 : Decimal) * lotSize))

/-- The exponent of the leading digit (`Decimal.adjusted`). -/
def adjusted (x : Decimal) : ℤ := Int.log 10 |x|

/-- Split one fill's fee over the partitions by the absolute size each moved. -/
def splitFee (moves : List (String × Decimal)) (fee : Decimal) : Dict String Decimal :=
  let total := (moves.map fun move => |move.2|).sum
  let step : Decimal := (10 : Decimal) ^ (adjusted fee - 20)
  let shares : Dict String Decimal := Dict.empty.setAll
    (moves.map fun move => (move.1, quantize (fee * |move.2| / total) step))
  let weights : Dict String Decimal := Dict.empty.setAll
    (moves.map fun move => (move.1, |move.2|))
  let largest := firstMax (fun owner => (weights.get owner).getD 0) (sortedOwners weights.keys)
  match largest with
  | none => shares
  | some owner =>
      shares.set owner ((shares.get owner).getD 0 + (fee - shares.values.sum))

/-- Split one fill of a flatten order over the partitions it moves. -/
def flattenSplit (basis : Basis) (lotSize cumQty quantity fee : Decimal) :
    Except SplitFault (List (String × PartitionMove)) :=
  let net := basisNet basis
  if net = 0 then
    .error (.noNet basis)
  else if |net| < cumQty then
    .error (.pastNet cumQty net)
  else
    match totalMoves basis lotSize (cumQty - quantity), totalMoves basis lotSize cumQty with
    | .error fault, _ => .error fault
    | _, .error fault => .error fault
    | .ok before, .ok after =>
        let sizes := ((before.zip after).map fun pair =>
          (pair.1.1, pair.2.2 - pair.1.2)).filter fun move => decide (move.2 ≠ 0)
        let fees := splitFee sizes fee
        .ok (sizes.map fun move => (move.1, ⟨move.2, (fees.get move.1).getD 0⟩))

/-- A split names only partitions it moves. -/
theorem flattenSplit_size_ne_zero {basis : Basis} {lotSize cumQty quantity fee : Decimal}
    {moves : List (String × PartitionMove)}
    (split : flattenSplit basis lotSize cumQty quantity fee = .ok moves)
    {owner : String} {move : PartitionMove} (member : (owner, move) ∈ moves) : move.size ≠ 0 := by
  simp only [flattenSplit] at split
  split at split
  · cases split
  · split at split
    · cases split
    · split at split
      · cases split
      · cases split
      · cases split
        simp only [List.mem_map, List.mem_filter, Prod.mk.injEq] at member
        obtain ⟨sized, ⟨_, nonzero⟩, _, rfl⟩ := member
        exact of_decide_eq_true nonzero

/-- Two long partitions of 3 and 1 lots close one lot: the larger moves. -/
example : (flattenSplit [("a", 3), ("b", 1)] 1 1 1 (1 / 10)).toOption =
    some [("a", ⟨-1, 1 / 10⟩)] := by
  decide +kernel

end Tickwright.Engine
