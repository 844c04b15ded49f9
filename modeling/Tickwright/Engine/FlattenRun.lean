/-
# Engine.FlattenRun -- one flatten order, fill after fill

`feed` cuts an order's fills one after another, each with its running total, and
`bookFills` does the same through `Checkpointer._split`.  What a partition has
moved after any number of cuts depends on the running total alone
(`feed_moved`), so a prefix, a re-cut and a full fill are one argument.

* over lot-aligned partitions the split is exact, monotone and closes the book
  (`flatten_split_exact`);
* over any partitions an accepted order can be booked exactly when its whole lots
  fit the net of the partitions' whole lots (`accepted_flatten_books_iff`).
  `split_refusal` judges the decimal net instead, so off the lot grid it lets an
  order through that no fill of can be booked (`offGrid_flatten_unbookable`).
-/
import Tickwright.Engine.SplitExact
import Tickwright.Engine.InSync

namespace Tickwright.Engine

open Tickwright.Domain Tickwright.Theory Tickwright.Store

set_option autoImplicit false

/-- One fill of a flatten order. -/
structure FlattenFill where
  tradeId : String
  quantity : Decimal
  price : Decimal
  fee : Decimal := 0
deriving DecidableEq

/-- A positive whole number of lots. -/
def OnGrid (lotSize quantity : Decimal) : Prop := ∃ lots : ℕ, 0 < lots ∧ quantity = lots * lotSize

def totalOf (fills : List FlattenFill) : Decimal := (fills.map FlattenFill.quantity).sum

/-- Cut the fills in order, each with the order's running total. -/
def feed (basis : Basis) (lotSize : Decimal) :
    Decimal → List FlattenFill → Except SplitFault (List (List (String × PartitionMove)))
  | _, [] => .ok []
  | cumQty, fill :: rest =>
      match flattenSplit basis lotSize (cumQty + fill.quantity) fill.quantity fill.fee with
      | .error fault => .error fault
      | .ok moves => (feed basis lotSize (cumQty + fill.quantity) rest).map (moves :: ·)

/-- What one partition has moved over some cuts. -/
def movedOver (cuts : List (List (String × PartitionMove))) (owner : String) : Decimal :=
  (cuts.map fun moves => movedBy (sizesOf moves) owner).sum

section Feed

variable {basis : Basis} {lotSize cumQty : Decimal} {fills : List FlattenFill}
  {cuts : List (List (String × PartitionMove))}

theorem feed_cons {fill : FlattenFill} {rest : List FlattenFill}
    (cut : feed basis lotSize cumQty (fill :: rest) = .ok cuts) :
    ∃ moves tail,
      flattenSplit basis lotSize (cumQty + fill.quantity) fill.quantity fill.fee = .ok moves ∧
        feed basis lotSize (cumQty + fill.quantity) rest = .ok tail ∧ cuts = moves :: tail := by
  simp only [feed] at cut
  split at cut
  · cases cut
  · rename_i moves split
    cases tail : feed basis lotSize (cumQty + fill.quantity) rest with
    | error fault => rw [tail] at cut; cases cut
    | ok others =>
        rw [tail] at cut
        cases cut
        exact ⟨moves, others, split, rfl, rfl⟩

theorem feed_take (n : ℕ) (cut : feed basis lotSize cumQty fills = .ok cuts) :
    feed basis lotSize cumQty (fills.take n) = .ok (cuts.take n) := by
  induction fills generalizing cumQty cuts n with
  | nil => cases cut; rw [List.take_nil, List.take_nil]; rfl
  | cons fill rest ih =>
      obtain ⟨moves, tail, split, more, rfl⟩ := feed_cons cut
      cases n with
      | zero => rfl
      | succ n =>
          rw [List.take_succ_cons, List.take_succ_cons]
          simp only [feed, split, ih n more]
          rfl

/-- **What a partition has moved depends on the running total alone.** -/
theorem feed_moved (distinct : (basis.map Prod.fst).Nodup) {entry : String × Decimal}
    (member : entry ∈ basis) (cut : feed basis lotSize cumQty fills = .ok cuts) :
    movedOver cuts entry.1 = toward entry.2 *
      ((movedLots basis lotSize (truncate ((cumQty + totalOf fills) / lotSize)) entry : Decimal) -
        movedLots basis lotSize (truncate (cumQty / lotSize)) entry) * lotSize := by
  induction fills generalizing cumQty cuts with
  | nil =>
      cases cut
      simp only [movedOver, totalOf, List.map_nil, List.sum_nil, add_zero, sub_self, mul_zero,
        zero_mul]
  | cons fill rest ih =>
      obtain ⟨moves, tail, split, more, rfl⟩ := feed_cons cut
      have here := (flattenSplit_ok distinct split).2
      have there := ih more
      unfold movedOver at there ⊢
      rw [List.map_cons, List.sum_cons, there, here, movedBy_fillMoves distinct _ _ member,
        add_sub_cancel_right]
      have total : cumQty + totalOf (fill :: rest) = cumQty + fill.quantity + totalOf rest := by
        unfold totalOf
        rw [List.map_cons, List.sum_cons]
        ring
      rw [total]
      ring

/-- The split returns for every fill of an order within the net. -/
theorem feed_defined (distinct : (basis.map Prod.fst).Nodup) (some_ : lotNet basis lotSize ≠ 0)
    (net : basisNet basis ≠ 0) (signed : ∀ fill ∈ fills, 0 ≤ fill.quantity)
    (within : cumQty + totalOf fills ≤ |basisNet basis|) :
    ∃ cuts, feed basis lotSize cumQty fills = .ok cuts ∧ cuts.length = fills.length := by
  induction fills generalizing cumQty with
  | nil => exact ⟨[], rfl, rfl⟩
  | cons fill rest ih =>
      have total : cumQty + totalOf (fill :: rest) = cumQty + fill.quantity + totalOf rest := by
        unfold totalOf
        rw [List.map_cons, List.sum_cons]
        ring
      rw [total] at within
      have later : 0 ≤ totalOf rest := List.sum_nonneg fun quantity member => by
        obtain ⟨other, held, rfl⟩ := List.mem_map.mp member
        exact signed other (List.mem_cons_of_mem _ held)
      obtain ⟨moves, split⟩ := flattenSplit_defined distinct some_ net
        (show cumQty + fill.quantity ≤ |basisNet basis| by linarith) fill.quantity fill.fee
      obtain ⟨tail, more, long⟩ :=
        ih (fun other member => signed other (List.mem_cons_of_mem _ member)) within
      refine ⟨moves :: tail, ?_, by rw [List.length_cons, List.length_cons, long]⟩
      simp only [feed, split, more]
      rfl

/-! ## Fills on the lot grid -/

theorem truncate_lots (positive : 0 < lotSize) (lots : ℤ) :
    truncate ((lots : Decimal) * lotSize / lotSize) = lots := by
  rw [mul_div_cancel_right₀ _ positive.ne']
  unfold truncate
  split
  · exact Int.floor_intCast lots
  · exact Int.ceil_intCast lots

theorem totalOf_onGrid (grid : ∀ fill ∈ fills, OnGrid lotSize fill.quantity) :
    ∃ lots : ℕ, totalOf fills = lots * lotSize := by
  induction fills with
  | nil => exact ⟨0, by simp [totalOf]⟩
  | cons fill rest ih =>
      obtain ⟨lots, is⟩ := ih fun other member => grid other (List.mem_cons_of_mem _ member)
      obtain ⟨first, _, quantity⟩ := grid fill List.mem_cons_self
      refine ⟨first + lots, ?_⟩
      unfold totalOf at is ⊢
      rw [List.map_cons, List.sum_cons, is, quantity]
      push_cast
      ring

theorem onGrid_pos (positive : 0 < lotSize) {quantity : Decimal}
    (grid : OnGrid lotSize quantity) : 0 < quantity := by
  obtain ⟨lots, some_, rfl⟩ := grid
  exact mul_pos (by exact_mod_cast some_) positive

/-- One cut on the lot grid, in lots. -/
theorem cut_onGrid (distinct : (basis.map Prod.fst).Nodup) {start lots : ℕ} {fee : Decimal}
    {moves : List (String × PartitionMove)}
    (split : flattenSplit basis lotSize ((start : Decimal) * lotSize + lots * lotSize)
      (lots * lotSize) fee = .ok moves) :
    sizesOf moves = fillMoves basis lotSize (((start : ℤ) : Decimal) * lotSize)
      (((start + lots : ℤ) : Decimal) * lotSize) := by
  rw [(flattenSplit_ok distinct split).2]
  congr 1
  · push_cast
    ring
  · push_cast
    ring

/-- The sizes of a cut's moves, summed. -/
theorem sum_sizesOf (moves : List (String × PartitionMove)) :
    ((sizesOf moves).map Prod.snd).sum = (moves.map fun move => move.2.size).sum := by
  unfold sizesOf
  rw [List.map_map]
  rfl

/-- **A cut adds up to its own fill**, closing. -/
theorem cut_sum (positive : 0 < lotSize) (distinct : (basis.map Prod.fst).Nodup)
    (some_ : 0 < lotNet basis lotSize) {start lots : ℕ} {fee : Decimal}
    {moves : List (String × PartitionMove)}
    (split : flattenSplit basis lotSize ((start : Decimal) * lotSize + lots * lotSize)
      (lots * lotSize) fee = .ok moves) :
    (moves.map fun move => move.2.size).sum = toward (basisNet basis) * (lots * lotSize) := by
  have before : (0 : ℤ) ≤ truncate (((start : ℤ) : Decimal) * lotSize / lotSize) := by
    rw [truncate_lots positive]
    exact Int.natCast_nonneg start
  have after : (0 : ℤ) ≤ truncate (((start + lots : ℤ) : Decimal) * lotSize / lotSize) := by
    rw [truncate_lots positive]
    omega
  have sum := sum_fillMoves positive distinct some_ before after
  rw [← cut_onGrid distinct split, sum_sizesOf, truncate_lots positive,
    truncate_lots positive] at sum
  rw [sum]
  push_cast
  ring

/-- **A cut moves every partition it names toward zero**, within the lot net. -/
theorem cut_toward (positive : 0 < lotSize) (distinct : (basis.map Prod.fst).Nodup)
    (some_ : 0 < lotNet basis lotSize) {start lots : ℕ}
    (within : (start + lots : ℤ) ≤ lotNet basis lotSize) {fee : Decimal}
    {moves : List (String × PartitionMove)}
    (split : flattenSplit basis lotSize ((start : Decimal) * lotSize + lots * lotSize)
      (lots * lotSize) fee = .ok moves) {move : String × PartitionMove} (member : move ∈ moves) :
    ∃ entry ∈ basis, entry.1 = move.1 ∧ move.2.size * entry.2 < 0 := by
  have named : (move.1, move.2.size) ∈ sizesOf moves :=
    List.mem_map_of_mem (f := fun entry : String × PartitionMove => (entry.1, entry.2.size)) member
  rw [cut_onGrid distinct split] at named
  have before := truncate_lots positive (start : ℤ)
  have after := truncate_lots positive (start + lots : ℤ)
  exact fillMoves_toward positive distinct some_ (by rw [before]; omega)
    (by rw [before, after]; omega) (by rw [after]; exact within) named

/-- **What holds of every cut on the grid** holds of every cut of a run. -/
theorem feed_zip (holds : FlattenFill → List (String × PartitionMove) → Prop) {start : ℕ}
    (most : ℤ) (one : ∀ (start lots : ℕ) fill moves, (start + lots : ℤ) ≤ most →
      0 < lots → fill.quantity = lots * lotSize →
      flattenSplit basis lotSize ((start : Decimal) * lotSize + lots * lotSize)
        (lots * lotSize) fill.fee = .ok moves → holds fill moves)
    (positive : 0 < lotSize) (grid : ∀ fill ∈ fills, OnGrid lotSize fill.quantity)
    (within : (start : Decimal) * lotSize + totalOf fills ≤ most * lotSize)
    (cut : feed basis lotSize (start * lotSize) fills = .ok cuts) :
    ∀ pair ∈ fills.zip cuts, holds pair.1 pair.2 := by
  induction fills generalizing start cuts with
  | nil => intro pair member; cases member
  | cons fill rest ih =>
      obtain ⟨moves, tail, split, more, rfl⟩ := feed_cons cut
      obtain ⟨lots, above, quantity⟩ := grid fill List.mem_cons_self
      have gridRest : ∀ other ∈ rest, OnGrid lotSize other.quantity :=
        fun other member => grid other (List.mem_cons_of_mem fill member)
      obtain ⟨later, total⟩ := totalOf_onGrid gridRest
      have next : (start : Decimal) * lotSize + fill.quantity =
          ((start + lots : ℕ) : Decimal) * lotSize := by
        rw [quantity]
        push_cast
        ring
      have whole : (start : Decimal) * lotSize + totalOf (fill :: rest) =
          ((start + lots : ℕ) : Decimal) * lotSize + totalOf rest := by
        unfold totalOf
        rw [List.map_cons, List.sum_cons, ← next]
        ring
      rw [whole] at within
      have fits : (start + lots : ℤ) ≤ most := by
        rw [total, ← add_mul] at within
        have lotsFit := le_of_mul_le_mul_right within positive
        have cast : ((start + lots + later : ℤ) : Decimal) ≤ (most : Decimal) := by
          push_cast at lotsFit ⊢
          exact lotsFit
        have fits := Int.cast_le.mp cast
        omega
      intro pair member
      rw [List.zip_cons_cons] at member
      rcases List.mem_cons.mp member with rfl | member
      · rw [quantity] at split
        exact one start lots fill moves fits above quantity split
      · rw [next] at more
        exact ih gridRest within more pair member

end Feed

/-! ## Lot-aligned partitions -/

section Aligned

variable {basis : Basis} {lotSize : Decimal}

/-- Every partition holds whole lots. -/
def Aligned (basis : Basis) (lotSize : Decimal) : Prop :=
  ∀ entry ∈ basis, ∃ lots : ℤ, entry.2 = lots * lotSize

theorem wholeLots_mul (positive : 0 < lotSize) (aligned : Aligned basis lotSize)
    {entry : String × Decimal} (member : entry ∈ basis) :
    (wholeLots lotSize entry.2 : Decimal) * lotSize = |entry.2| := by
  obtain ⟨lots, is⟩ := aligned entry member
  have size : |entry.2| = ((|lots| : ℤ) : Decimal) * lotSize := by
    rw [is, abs_mul, abs_of_pos positive]
    push_cast
    rfl
  unfold wholeLots
  rw [size, truncate_lots positive]

theorem wholeLots_mul_le (positive : 0 < lotSize) (size : Decimal) :
    (wholeLots lotSize size : Decimal) * lotSize ≤ |size| := by
  have share : 0 ≤ |size| / lotSize := div_nonneg (abs_nonneg size) positive.le
  unfold wholeLots truncate
  rw [if_pos share]
  exact (le_div_iff₀ positive).mp (Int.floor_le _)

theorem toward_mul_abs (size : Decimal) : toward size * |size| = -size := by
  unfold toward
  by_cases long : 0 < size
  · rw [if_pos long, abs_of_pos long, neg_one_mul]
  · rw [if_neg long, abs_of_nonpos (not_lt.mp long), one_mul]

/-- **On the lot grid the lot net is the account net.** -/
theorem lotNet_mul (positive : 0 < lotSize) (aligned : Aligned basis lotSize) :
    (lotNet basis lotSize : Decimal) * lotSize = |basisNet basis| := by
  have each : basis.map Prod.snd = basis.map fun entry =>
      toward entry.2 * (-1 * ((wholeLots lotSize entry.2 : Decimal) * lotSize)) := by
    apply List.map_congr_left
    intro entry member
    rw [wholeLots_mul positive aligned member]
    have back := toward_mul_abs entry.2
    linarith
  have sides : ∀ entries : Basis, (entries.map fun entry =>
      -1 * ((wholeLots lotSize entry.2 : Decimal) * lotSize)).sum =
        -1 * (((entries.map fun entry => wholeLots lotSize entry.2).sum : ℤ) * lotSize) := by
    intro entries
    rw [List.sum_map_mul_left, List.sum_map_mul_right]
    push_cast
    rw [List.map_map]
    rfl
  have net : basisNet basis =
      toward (basisNet basis) * (-1 * ((lotNet basis lotSize : Decimal) * lotSize)) := by
    conv_lhs => unfold basisNet
    rw [each, sum_toward, sides, sides]
    unfold lotNet lotsOn
    push_cast
    ring
  have size := toward_mul_abs (basisNet basis)
  have unit : toward (basisNet basis) ≠ 0 := by
    unfold toward
    split <;> norm_num
  apply mul_left_cancel₀ unit
  linarith

end Aligned

/-! ## The split is exact, monotone and closes the book -/

section Exact

variable {basis : Basis} {lotSize : Decimal}

/-- A partition stays on its own side as it moves toward zero. -/
theorem abs_add_toward {size lots : Decimal} (signed : 0 ≤ lots) (within : lots ≤ |size|) :
    |size + toward size * lots| = |size| - |toward size * lots| := by
  unfold toward
  by_cases long : 0 < size
  · rw [abs_of_pos long] at within
    rw [if_pos long, neg_one_mul, abs_neg, abs_of_nonneg signed, abs_of_pos long,
      abs_of_nonneg (by linarith)]
    ring
  · have short := not_lt.mp long
    rw [abs_of_nonpos short] at within
    rw [if_neg long, one_mul, abs_of_nonneg signed, abs_of_nonpos short,
      abs_of_nonpos (by linarith)]
    ring

/-- Fills of one order within its net, from `start` lots on. -/
theorem feed_onGrid (positive : 0 < lotSize) (distinct : (basis.map Prod.fst).Nodup)
    (some_ : 0 < lotNet basis lotSize) (net : basisNet basis ≠ 0) {start : ℕ}
    {fills : List FlattenFill} (grid : ∀ fill ∈ fills, OnGrid lotSize fill.quantity)
    (within : (start : Decimal) * lotSize + totalOf fills ≤ |basisNet basis|) :
    ∃ cuts, feed basis lotSize (start * lotSize) fills = .ok cuts ∧
      cuts.length = fills.length :=
  feed_defined distinct some_.ne' net
    (fun fill member => (onGrid_pos positive (grid fill member)).le) within

/-- What a partition has moved over a run on the grid, from `start` lots on. -/
theorem feed_moved_onGrid (positive : 0 < lotSize) (distinct : (basis.map Prod.fst).Nodup)
    {start lots : ℕ} {fills : List FlattenFill} (total : totalOf fills = lots * lotSize)
    {cuts : List (List (String × PartitionMove))}
    (cut : feed basis lotSize (start * lotSize) fills = .ok cuts)
    {entry : String × Decimal} (member : entry ∈ basis) :
    movedOver cuts entry.1 = toward entry.2 *
      (((movedLots basis lotSize (start + lots) entry : Decimal) -
        movedLots basis lotSize start entry) * lotSize) := by
  have whole : (start : Decimal) * lotSize + totalOf fills =
      ((start + lots : ℤ) : Decimal) * lotSize := by
    rw [total]
    push_cast
    ring
  have from_ : (start : Decimal) * lotSize = ((start : ℤ) : Decimal) * lotSize := by push_cast; rfl
  have moved := feed_moved distinct member cut
  rw [whole, truncate_lots positive, from_, truncate_lots positive] at moved
  rw [moved]
  ring

theorem toward_ne_zero (size : Decimal) : toward size ≠ 0 := by
  unfold toward
  split <;> norm_num

theorem movedLots_zero (basis : Basis) (lotSize : Decimal) (entry : String × Decimal) :
    movedLots basis lotSize 0 entry = 0 := by
  have none_ : netSideMoved basis lotSize 0 = 0 := by
    unfold netSideMoved
    rw [mul_zero, Int.zero_fdiv]
  unfold movedLots
  rw [none_, sub_self]
  split <;> rfl

/-- Moves that do not cancel out weigh something. -/
theorem sum_abs_pos {moves : List (String × PartitionMove)}
    (moved : (moves.map fun move => move.2.size).sum ≠ 0) :
    0 < (moves.map fun move => |move.2.size|).sum := by
  induction moves with
  | nil => exact absurd rfl moved
  | cons move rest ih =>
      rw [List.map_cons, List.sum_cons] at moved ⊢
      have later : 0 ≤ (rest.map fun move => |move.2.size|).sum :=
        List.sum_nonneg fun size member => by
          obtain ⟨other, _, rfl⟩ := List.mem_map.mp member
          exact abs_nonneg _
      by_cases flat : move.2.size = 0
      · rw [flat, zero_add] at moved
        rw [flat, abs_zero, zero_add]
        exact ih moved
      · exact add_pos_of_pos_of_nonneg (abs_pos.mpr flat) later

theorem lots_le (positive : 0 < lotSize) {lots : ℕ} {most : ℤ}
    (within : (lots : Decimal) * lotSize ≤ most * lotSize) : (lots : ℤ) ≤ most := by
  have fits := le_of_mul_le_mul_right within positive
  exact_mod_cast fits

theorem totalOf_take_le (positive : 0 < lotSize) {fills : List FlattenFill}
    (grid : ∀ fill ∈ fills, OnGrid lotSize fill.quantity) (n : ℕ) :
    totalOf (fills.take n) ≤ totalOf fills := by
  have split : totalOf fills = totalOf (fills.take n) + totalOf (fills.drop n) := by
    unfold totalOf
    rw [← List.sum_append, ← List.map_append, List.take_append_drop]
  have later : 0 ≤ totalOf (fills.drop n) := List.sum_nonneg fun quantity member => by
    obtain ⟨fill, held, rfl⟩ := List.mem_map.mp member
    exact (onGrid_pos positive (grid fill (List.mem_of_mem_drop held))).le
  linarith

/-- **Every cut adds up to its own fill**, over a positive weight. -/
theorem feed_sums (positive : 0 < lotSize) (distinct : (basis.map Prod.fst).Nodup)
    (some_ : 0 < lotNet basis lotSize) {start : ℕ} {fills : List FlattenFill}
    (grid : ∀ fill ∈ fills, OnGrid lotSize fill.quantity)
    {cuts : List (List (String × PartitionMove))}
    (cut : feed basis lotSize (start * lotSize) fills = .ok cuts) :
    ∀ pair ∈ fills.zip cuts, 0 < (pair.2.map fun move => |move.2.size|).sum ∧
      (pair.2.map fun move => move.2.size).sum = toward (basisNet basis) * pair.1.quantity := by
  obtain ⟨total, is⟩ := totalOf_onGrid grid
  have most : (start : Decimal) * lotSize + totalOf fills ≤
      ((start + total : ℤ) : Decimal) * lotSize := by
    rw [is]
    push_cast
    linarith
  refine feed_zip (fun fill moves => 0 < (moves.map fun move => |move.2.size|).sum ∧
    (moves.map fun move => move.2.size).sum = toward (basisNet basis) * fill.quantity) _
    (fun start lots fill moves _ above quantity split => ?_) positive grid most cut
  have sum := cut_sum positive distinct some_ split
  rw [← quantity] at sum
  refine ⟨sum_abs_pos ?_, sum⟩
  rw [sum, quantity]
  refine mul_ne_zero (toward_ne_zero _) (mul_ne_zero ?_ positive.ne')
  exact_mod_cast above.ne'

/-- **No partition passes zero at any prefix** of fills within the lot net. -/
theorem feed_within (positive : 0 < lotSize) (distinct : (basis.map Prod.fst).Nodup)
    (some_ : 0 < lotNet basis lotSize) {fills : List FlattenFill}
    (grid : ∀ fill ∈ fills, OnGrid lotSize fill.quantity)
    (within : totalOf fills ≤ (lotNet basis lotSize : Decimal) * lotSize)
    {cuts : List (List (String × PartitionMove))} (cut : feed basis lotSize 0 fills = .ok cuts)
    (n : ℕ) {entry : String × Decimal} (member : entry ∈ basis) :
    |entry.2 + movedOver (cuts.take n) entry.1| =
      |entry.2| - |movedOver (cuts.take n) entry.1| := by
  have gridTake : ∀ fill ∈ fills.take n, OnGrid lotSize fill.quantity :=
    fun fill there => grid fill (List.mem_of_mem_take there)
  obtain ⟨lots, total⟩ := totalOf_onGrid gridTake
  have fits : (lots : ℤ) ≤ lotNet basis lotSize := by
    refine lots_le positive ?_
    rw [← total]
    exact le_trans (totalOf_take_le positive grid n) within
  have here : feed basis lotSize ((0 : ℕ) * lotSize) (fills.take n) = .ok (cuts.take n) := by
    rw [Nat.cast_zero, zero_mul]
    exact feed_take n cut
  rw [feed_moved_onGrid positive distinct total here member, Nat.cast_zero, zero_add,
    movedLots_zero, Int.cast_zero, sub_zero]
  have moved := movedLots_le positive distinct some_ (Int.natCast_nonneg lots) fits member
  have least := movedLots_nonneg basis lotSize lots entry
  apply abs_add_toward
  · exact mul_nonneg (by exact_mod_cast least) positive.le
  · calc (movedLots basis lotSize lots entry : Decimal) * lotSize
        ≤ (wholeLots lotSize entry.2 : Decimal) * lotSize :=
          mul_le_mul_of_nonneg_right (by exact_mod_cast moved) positive.le
      _ ≤ |entry.2| := wholeLots_mul_le positive entry.2

end Exact

namespace Sample

/-- A strategy long two and the unattributed partition short one, in half lots. -/
def crossed : Basis := [("carry", 2), (unattributed, -1)]

def halves : List FlattenFill := [⟨"1", 1 / 2, 100, 3 / 100⟩, ⟨"2", 1 / 2, 101, 0⟩]

end Sample

/-! ## What the manager accepts can be booked -/

section Accepted

variable {config : Config} {basis : Basis} {order : Order}

/-- One partition's piece of one fill of `order`. -/
def pieceOf (order : Order) (fill : FlattenFill) (entry : String × PartitionMove) :
    BookableFill × Side :=
  ({ eventId := .piece order.cloid fill.tradeId entry.1
     owner := Owner.ofStored entry.1
     symbol := order.symbol
     quantity := |entry.2.size|
     price := fill.price
     fee := entry.2.fee },
   if 0 < entry.2.size then .buy else .sell)

/-- Book the fills in order, each with the order's running total. -/
def bookFills (config : Config) (basis : Basis) (order : Order) :
    Decimal → List FlattenFill → Except Fault (List (List (BookableFill × Side)))
  | _, [] => .ok []
  | cumQty, fill :: rest =>
      match splitFill config basis order fill.tradeId fill.quantity fill.price
          (cumQty + fill.quantity) fill.fee with
      | .error fault => .error fault
      | .ok pieces => (bookFills config basis order (cumQty + fill.quantity) rest).map (pieces :: ·)

/-- What one piece moves its partition by. -/
def signedOf (piece : BookableFill × Side) : Decimal := piece.2.sign * piece.1.quantity

/-- What the booked pieces moved one owner's partition by. -/
def bookedOver (booked : List (List (BookableFill × Side))) (owner : Owner) : Decimal :=
  (booked.map fun pieces =>
    ((pieces.filter fun piece => decide (piece.1.owner = owner)).map signedOf).sum).sum

/-- Every sequence of fills the order may still get can be booked: no fill
raises or shares its fee over nothing, the pieces add up to the fill, and no
partition is flipped. -/
def Bookable (config : Config) (basis : Basis) (order : Order) (lotSize : Decimal) : Prop :=
  ∀ fills : List FlattenFill, (∀ fill ∈ fills, OnGrid lotSize fill.quantity) →
    totalOf fills ≤ order.quantity →
    ∃ booked, bookFills config basis order 0 fills = .ok booked ∧
      booked.length = fills.length ∧
      (∀ pair ∈ fills.zip booked, 0 < (pair.2.map fun piece => piece.1.quantity).sum ∧
        (pair.2.map signedOf).sum = order.side.sign * pair.1.quantity) ∧
      ∀ n, ∀ entry ∈ basis,
        0 ≤ entry.2 * (entry.2 + bookedOver (booked.take n) (Owner.ofStored entry.1))

theorem signedOf_pieceOf (order : Order) (fill : FlattenFill) (entry : String × PartitionMove) :
    signedOf (pieceOf order fill entry) = entry.2.size := by
  unfold signedOf pieceOf
  by_cases long : 0 < entry.2.size
  · simp only [if_pos long, Side.sign, one_mul, abs_of_pos long]
  · simp only [if_neg long, Side.sign, abs_of_nonpos (not_lt.mp long)]
    ring

theorem stored_ofStored (name : String) : Owner.stored (Owner.ofStored name) = name := by
  unfold Owner.ofStored
  split
  · rename_i is; rw [is]; rfl
  · rfl

/-- A fill's pieces are its moves, if it has any. -/
theorem splitFill_of_flattenSplit {szDecimals : ℤ}
    (spec : config.szDecimals order.symbol = some szDecimals) {fill : FlattenFill}
    {cumQty : Decimal} {moves : List (String × PartitionMove)}
    (split : flattenSplit basis ((10 : Decimal) ^ (-szDecimals)) cumQty fill.quantity fill.fee =
      .ok moves) :
    splitFill config basis order fill.tradeId fill.quantity fill.price cumQty fill.fee =
      if moves = [] then
        .error (.invariant (.movesNoPartition (.fill order.cloid fill.tradeId) fill.quantity))
      else .ok (moves.map (pieceOf order fill)) := by
  simp only [splitFill, spec, split]
  cases moves with
  | nil => rfl
  | cons first rest => rfl

theorem sum_pieces (order : Order) (fill : FlattenFill) (moves : List (String × PartitionMove)) :
    ((moves.map (pieceOf order fill)).map signedOf).sum =
      (moves.map fun move => move.2.size).sum := by
  rw [List.map_map]
  congr 1
  apply List.map_congr_left
  intro entry _
  exact signedOf_pieceOf order fill entry

theorem pieces_of_owner (order : Order) (fill : FlattenFill)
    (moves : List (String × PartitionMove)) (owner : String) :
    (((moves.map (pieceOf order fill)).filter fun piece =>
      decide (piece.1.owner = Owner.ofStored owner)).map signedOf).sum =
        movedBy (sizesOf moves) owner := by
  unfold movedBy sizesOf
  rw [List.filter_map, List.filter_map, List.map_map, List.map_map]
  have same : ((fun piece : BookableFill × Side => decide (piece.1.owner = Owner.ofStored owner)) ∘
      pieceOf order fill) = (fun move : String × Decimal => decide (move.1 = owner)) ∘
        fun entry : String × PartitionMove => (entry.1, entry.2.size) := by
    funext entry
    simp only [Function.comp_apply, pieceOf]
    refine decide_eq_decide.mpr ⟨?_, ?_⟩
    · intro is
      rw [← stored_ofStored entry.1, is, stored_ofStored]
    · exact congrArg Owner.ofStored
  rw [same]
  congr 1
  apply List.map_congr_left
  intro entry _
  exact signedOf_pieceOf order fill entry

/-- **Cuts that all move something are booked as their pieces.** -/
theorem bookFills_of_feed {szDecimals : ℤ}
    (spec : config.szDecimals order.symbol = some szDecimals) {cumQty : Decimal}
    {fills : List FlattenFill} {cuts : List (List (String × PartitionMove))}
    (cut : feed basis ((10 : Decimal) ^ (-szDecimals)) cumQty fills = .ok cuts)
    (some_ : ∀ moves ∈ cuts, moves ≠ []) :
    bookFills config basis order cumQty fills =
      .ok (List.zipWith (fun fill moves => moves.map (pieceOf order fill)) fills cuts) := by
  induction fills generalizing cumQty cuts with
  | nil => cases cut; rfl
  | cons fill rest ih =>
      obtain ⟨moves, tail, split, more, rfl⟩ := feed_cons cut
      have here := @splitFill_of_flattenSplit config basis order _ spec _ _ _ split
      rw [if_neg (some_ moves List.mem_cons_self)] at here
      have there := ih more fun other member => some_ other (List.mem_cons_of_mem _ member)
      simp only [bookFills, here, there]
      rfl

theorem bookedOver_zipWith (fills : List FlattenFill)
    {cuts : List (List (String × PartitionMove))} (long : cuts.length = fills.length)
    (owner : String) :
    bookedOver (List.zipWith (fun fill moves => moves.map (pieceOf order fill)) fills cuts)
      (Owner.ofStored owner) = movedOver cuts owner := by
  unfold bookedOver movedOver
  induction fills generalizing cuts with
  | nil =>
      have none_ : cuts = [] := List.length_eq_zero_iff.mp long
      rw [none_]
      rfl
  | cons fill rest ih =>
      cases cuts with
      | nil => cases long
      | cons moves tail =>
          rw [List.zipWith_cons_cons, List.map_cons, List.map_cons, List.sum_cons, List.sum_cons,
            pieces_of_owner, ih (Nat.succ.inj long)]

/-- The sizes of the partitions a flatten order is placed over: none flat, no
owner twice. -/
theorem splitBasisOf_distinct {portfolio : Portfolio} (filed : Filed portfolio.positions)
    (symbol : Symbol) : ((splitBasisOf portfolio symbol).map Prod.fst).Nodup := by
  have keys := filed.keys_nodup
  unfold splitBasisOf
  simp only
  rw [((List.perm_insertionSort _ _).map Prod.fst).nodup_iff, List.map_map]
  have held : ((portfolio.across symbol).filter fun position => !position.isFlat).Nodup :=
    ((keys.of_map).filter _).filter _
  apply held.map_on
  intro first there second here same
  have onSymbol : ∀ position ∈ (portfolio.across symbol).filter fun position => !position.isFlat,
      position.symbol = symbol ∧ position ∈ portfolio.positions.values := by
    intro position member
    obtain ⟨across, _⟩ := List.mem_filter.mp member
    obtain ⟨value, is⟩ := List.mem_filter.mp across
    exact ⟨of_decide_eq_true is, value⟩
  have owner : first.owner = second.owner := Owner.stored_injective same
  apply List.inj_on_of_nodup_map keys (onSymbol first there).2 (onSymbol second here).2
  show (first.owner, first.symbol) = (second.owner, second.symbol)
  rw [owner, (onSymbol first there).1, (onSymbol second here).1]

theorem splitBasisOf_sized (portfolio : Portfolio) (symbol : Symbol) {entry : String × Decimal}
    (member : entry ∈ splitBasisOf portfolio symbol) : entry.2 ≠ 0 := by
  unfold splitBasisOf at member
  have there := (List.perm_insertionSort _ _).mem_iff.mp member
  obtain ⟨position, held, rfl⟩ := List.mem_map.mp there
  have sized := (List.mem_filter.mp held).2
  unfold Position.isFlat at sized
  simpa using sized

theorem splitRefusal_none {side : Side} {quantity : Decimal}
    (accepted : splitRefusal basis side quantity = none) :
    basisNet basis ≠ 0 ∧ toward (basisNet basis) = side.sign ∧ quantity ≤ |basisNet basis| := by
  simp only [splitRefusal] at accepted
  split at accepted
  · cases accepted
  · rename_i net
    split at accepted
    · cases accepted
    · rename_i against
      split at accepted
      · cases accepted
      · rename_i within
        refine ⟨net, ?_, not_lt.mp within⟩
        unfold toward
        cases side with
        | buy =>
            have short : ¬ 0 < basisNet basis := by simpa using against
            rw [if_neg short]
            rfl
        | sell =>
            have long : 0 < basisNet basis := by simpa using against
            rw [if_pos long]
            rfl

theorem zip_zipWith {α β γ : Type*} (f : α → β → γ) (as : List α) (bs : List β) :
    as.zip (List.zipWith f as bs) = (as.zip bs).map fun pair => (pair.1, f pair.1 pair.2) := by
  induction as generalizing bs with
  | nil => rfl
  | cons a rest ih =>
      cases bs with
      | nil => rfl
      | cons b tail => rw [List.zipWith_cons_cons, List.zip_cons_cons, List.zip_cons_cons,
          List.map_cons, ih]

/-- A size that moves toward zero without passing it is not flipped. -/
theorem not_flipped {size moved : Decimal} (stays : |size + moved| = |size| - |moved|) :
    0 ≤ size * (size + moved) := by
  have low := neg_le_abs moved
  have high := le_abs_self moved
  rcases le_or_gt 0 size with long | short
  · refine mul_nonneg long ?_
    by_contra flipped
    rw [abs_of_neg (not_le.mp flipped), abs_of_nonneg long] at stays
    linarith [not_le.mp flipped]
  · refine mul_nonneg_of_nonpos_of_nonpos short.le ?_
    by_contra flipped
    rw [abs_of_pos (not_le.mp flipped), abs_of_neg short] at stays
    linarith [not_le.mp flipped]

/-- **Within the whole lots' net, every fill is booked.** -/
theorem bookable_within {szDecimals : ℤ}
    (spec : config.szDecimals order.symbol = some szDecimals)
    (distinct : (basis.map Prod.fst).Nodup)
    (accepted : splitRefusal basis order.side order.quantity = none)
    (fits : ⌊order.quantity / (10 : Decimal) ^ (-szDecimals)⌋ ≤
      max 0 (lotNet basis ((10 : Decimal) ^ (-szDecimals)))) :
    Bookable config basis order ((10 : Decimal) ^ (-szDecimals)) := by
  have positive : (0 : Decimal) < (10 : Decimal) ^ (-szDecimals) := zpow_pos (by norm_num) _
  generalize lotIs : (10 : Decimal) ^ (-szDecimals) = lotSize at fits positive ⊢
  obtain ⟨net, side, within⟩ := splitRefusal_none accepted
  intro fills grid total
  cases fills with
  | nil =>
      refine ⟨[], rfl, rfl, fun pair member => (by cases member), fun n entry _ => ?_⟩
      rw [List.take_nil]
      show 0 ≤ entry.2 * (entry.2 + 0)
      rw [add_zero]
      exact mul_self_nonneg entry.2
  | cons first rest =>
      obtain ⟨lots, is⟩ := totalOf_onGrid grid
      have some_ : 0 < lots := by
        have more : 0 < totalOf (first :: rest) := by
          unfold totalOf
          rw [List.map_cons, List.sum_cons]
          refine add_pos_of_pos_of_nonneg (onGrid_pos positive (grid first List.mem_cons_self))
            (List.sum_nonneg fun quantity member => ?_)
          obtain ⟨fill, held, rfl⟩ := List.mem_map.mp member
          exact (onGrid_pos positive (grid fill (List.mem_cons_of_mem _ held))).le
        rw [is] at more
        exact_mod_cast (mul_pos_iff_of_pos_right positive).mp more
      have below : (lots : ℤ) ≤ ⌊order.quantity / lotSize⌋ := by
        rw [Int.le_floor, le_div_iff₀ positive]
        push_cast
        rw [← is]
        exact total
      have lotsFit : (lots : ℤ) ≤ lotNet basis lotSize := by
        rcases le_max_iff.mp (below.trans fits) with none_ | fits
        · omega
        · exact fits
      have above : 0 < lotNet basis lotSize := by omega
      have zero : ((0 : ℕ) : Decimal) * lotSize = 0 := by rw [Nat.cast_zero, zero_mul]
      have from_ : ((0 : ℕ) : Decimal) * lotSize + totalOf (first :: rest) ≤
          |basisNet basis| := by
        rw [zero, zero_add]
        exact total.trans within
      obtain ⟨cuts, cut, long⟩ := feed_onGrid positive distinct above net grid from_
      have sums := feed_sums positive distinct above grid cut
      rw [zero] at cut
      have moving : ∀ moves ∈ cuts, moves ≠ [] := by
        intro moves member none_
        rw [← List.map_snd_zip (show cuts.length ≤ (first :: rest).length from long.le)] at member
        obtain ⟨pair, there, rfl⟩ := List.mem_map.mp member
        have weight := (sums pair there).1
        rw [none_] at weight
        exact lt_irrefl _ weight
      rw [← lotIs] at cut
      refine ⟨_, bookFills_of_feed spec cut moving, ?_, ?_, ?_⟩
      · rw [List.length_zipWith, long, min_self]
      · intro pair member
        rw [zip_zipWith] at member
        obtain ⟨cutPair, there, rfl⟩ := List.mem_map.mp member
        obtain ⟨weight, sum⟩ := sums cutPair there
        refine ⟨?_, ?_⟩
        · rw [List.map_map]
          exact weight
        · rw [sum_pieces, sum, side]
      · intro n entry member
        rw [List.take_zipWith, bookedOver_zipWith _ (by rw [List.length_take, List.length_take,
          long])]
        rw [lotIs] at cut
        have stays := feed_within positive distinct above grid (by
          rw [is]
          exact mul_le_mul_of_nonneg_right (by exact_mod_cast lotsFit) positive.le) cut n member
        exact not_flipped stays

/-- A lone fill of an order that every fill of can be booked. -/
theorem Bookable.one {lotSize : Decimal} (bookable : Bookable config basis order lotSize)
    {lots : ℕ} (some_ : 0 < lots) (fits : (lots : Decimal) * lotSize ≤ order.quantity) :
    ∃ pieces, splitFill config basis order "1" (lots * lotSize) 1 (0 + lots * lotSize) 0 =
        .ok pieces ∧ ∀ entry ∈ basis, 0 ≤ entry.2 * (entry.2 +
          ((pieces.filter fun piece =>
            decide (piece.1.owner = Owner.ofStored entry.1)).map signedOf).sum) := by
  obtain ⟨booked, is, long, _, stays⟩ := bookable [⟨"1", lots * lotSize, 1, 0⟩]
    (fun fill member => by
      rw [List.mem_singleton.mp member]
      exact ⟨lots, some_, rfl⟩)
    (by
      show (lots : Decimal) * lotSize + 0 ≤ order.quantity
      rw [add_zero]
      exact fits)
  simp only [bookFills] at is
  cases here : splitFill config basis order "1" (lots * lotSize) 1 (0 + lots * lotSize) 0 with
  | error fault => rw [here] at is; cases is
  | ok pieces =>
      rw [here] at is
      cases is
      refine ⟨pieces, rfl, fun entry member => ?_⟩
      have at_ := stays 1 entry member
      simpa [bookedOver] using at_

/-- With no net of whole lots nobody is handed a lot. -/
theorem movedLots_none {lotSize : Decimal} (positive : 0 < lotSize)
    (none_ : lotNet basis lotSize ≤ 0) {filled : ℤ} (signed : 0 ≤ filled)
    (entry : String × Decimal) : movedLots basis lotSize filled entry = 0 := by
  have back : netSideMoved basis lotSize filled ≤ 0 :=
    Int.fdiv_nonpos_of_nonneg_of_nonpos
      (mul_nonneg (lotsOn_nonneg basis positive _) signed) none_
  unfold movedLots gotLots
  split
  · rw [Int.toNat_of_nonpos back]
    rfl
  · rw [Int.toNat_of_nonpos (by omega)]
    rfl

/-- A fill that is booked was cut, into something. -/
theorem splitFill_ok {szDecimals : ℤ} (spec : config.szDecimals order.symbol = some szDecimals)
    (fill : FlattenFill) {cumQty : Decimal} {pieces : List (BookableFill × Side)}
    (booked : splitFill config basis order fill.tradeId fill.quantity fill.price cumQty fill.fee =
      .ok pieces) :
    ∃ moves, flattenSplit basis ((10 : Decimal) ^ (-szDecimals)) cumQty fill.quantity fill.fee =
      .ok moves ∧ moves ≠ [] ∧ pieces = moves.map (pieceOf order fill) := by
  cases split : flattenSplit basis ((10 : Decimal) ^ (-szDecimals)) cumQty fill.quantity
      fill.fee with
  | error fault => simp only [splitFill, spec, split] at booked; cases booked
  | ok moves =>
      have here := splitFill_of_flattenSplit spec split
      rw [booked] at here
      by_cases none_ : moves = []
      · rw [if_pos none_] at here; cases here
      · rw [if_neg none_] at here
        exact ⟨moves, rfl, none_, Except.ok.inj here⟩

theorem lt_wholeLots_succ {lotSize : Decimal} (positive : 0 < lotSize) (size : Decimal) :
    |size| < ((wholeLots lotSize size : Decimal) + 1) * lotSize := by
  have share : 0 ≤ |size| / lotSize := div_nonneg (abs_nonneg size) positive.le
  unfold wholeLots truncate
  rw [if_pos share]
  exact (div_lt_iff₀ positive).mp (Int.lt_floor_add_one _)

/-- **Past the whole lots' net, some fill cannot be booked.** -/
theorem not_bookable_past {szDecimals : ℤ}
    (spec : config.szDecimals order.symbol = some szDecimals)
    (distinct : (basis.map Prod.fst).Nodup) (sized : ∀ entry ∈ basis, entry.2 ≠ 0)
    (past : max 0 (lotNet basis ((10 : Decimal) ^ (-szDecimals))) <
      ⌊order.quantity / (10 : Decimal) ^ (-szDecimals)⌋) :
    ¬ Bookable config basis order ((10 : Decimal) ^ (-szDecimals)) := by
  have positive : (0 : Decimal) < (10 : Decimal) ^ (-szDecimals) := zpow_pos (by norm_num) _
  intro bookable
  generalize lotIs : (10 : Decimal) ^ (-szDecimals) = lotSize at past positive bookable
  obtain ⟨some_, beyond⟩ := max_lt_iff.mp past
  rcases le_or_gt (lotNet basis lotSize) 0 with none_ | above
  · -- No net of whole lots: one lot divides by zero or moves nobody.
    have fits : ((1 : ℕ) : Decimal) * lotSize ≤ order.quantity := by
      have one : ((1 : ℤ) : Decimal) ≤ order.quantity / lotSize := Int.le_floor.mp some_
      rw [le_div_iff₀ positive] at one
      exact_mod_cast one
    obtain ⟨pieces, booked, _⟩ := bookable.one Nat.one_pos fits
    obtain ⟨moves, split, moving, _⟩ := splitFill_ok spec ⟨"1", _, 1, 0⟩ booked
    rw [lotIs] at split
    have sizes := (flattenSplit_ok distinct split).2
    apply moving
    have still : fillMoves basis lotSize (0 + (1 : ℕ) * lotSize - (1 : ℕ) * lotSize)
        (0 + (1 : ℕ) * lotSize) = [] := by
      have one : 0 + ((1 : ℕ) : Decimal) * lotSize = ((1 : ℤ) : Decimal) * lotSize := by
        push_cast
        ring
      have zero : 0 + ((1 : ℕ) : Decimal) * lotSize - ((1 : ℕ) : Decimal) * lotSize =
          ((0 : ℤ) : Decimal) * lotSize := by
        push_cast
        ring
      unfold fillMoves
      rw [zero, one, truncate_lots positive, truncate_lots positive, List.filter_eq_nil_iff]
      intro move there
      obtain ⟨entry, _, rfl⟩ := List.mem_map.mp there
      rw [movedLots_none positive none_ (by omega), movedLots_none positive none_ (by omega)]
      simp
    rw [still] at sizes
    exact List.map_eq_nil_iff.mp sizes
  · -- The whole quantity in lots passes the net.
    set lots := ⌊order.quantity / lotSize⌋.toNat with lotsIs
    have whole : (lots : ℤ) = ⌊order.quantity / lotSize⌋ := Int.toNat_of_nonneg some_.le
    have fits : (lots : Decimal) * lotSize ≤ order.quantity := by
      rw [← le_div_iff₀ positive]
      have floor := Int.floor_le (order.quantity / lotSize)
      rw [← whole] at floor
      exact_mod_cast floor
    obtain ⟨pieces, booked, stays⟩ := bookable.one (by omega) fits
    obtain ⟨moves, split, _, rfl⟩ := splitFill_ok spec ⟨"1", _, 1, 0⟩ booked
    rw [lotIs] at split
    have sizes := (flattenSplit_ok distinct split).2
    have past : lotNet basis lotSize < (lots : ℤ) := by rw [whole]; exact beyond
    obtain ⟨entry, member, flipped⟩ := movedLots_past positive distinct above past
    have all : 0 + (lots : Decimal) * lotSize = ((lots : ℤ) : Decimal) * lotSize := by
      push_cast
      ring
    have zero : 0 + (lots : Decimal) * lotSize - (lots : Decimal) * lotSize =
        ((0 : ℤ) : Decimal) * lotSize := by
      push_cast
      ring
    have moved := stays entry member
    rw [pieces_of_owner, sizes, movedBy_fillMoves distinct _ _ member, zero, all,
      truncate_lots positive, truncate_lots positive, movedLots_zero, Int.cast_zero,
      sub_zero] at moved
    have bound := lt_wholeLots_succ positive entry.2
    have more : ((wholeLots lotSize entry.2 : Decimal) + 1) * lotSize ≤
        (movedLots basis lotSize lots entry : Decimal) * lotSize :=
      mul_le_mul_of_nonneg_right (by exact_mod_cast flipped) positive.le
    have passed := lt_of_lt_of_le bound more
    unfold toward at moved
    rcases lt_or_gt_of_ne (sized entry member) with short | long
    · rw [if_neg (not_lt.mpr short.le), one_mul] at moved
      rw [abs_of_neg short] at passed
      exact absurd moved (not_le.mpr (mul_neg_of_neg_of_pos short (by linarith)))
    · rw [if_pos long, neg_one_mul, neg_mul] at moved
      rw [abs_of_pos long] at passed
      exact absurd moved (not_le.mpr (mul_neg_of_pos_of_neg long (by linarith)))

/-- **An accepted flatten order can be booked exactly when its whole lots fit the
net of the partitions' whole lots.**  `split_refusal` compares the decimal net,
so off the lot grid the two disagree. -/
theorem accepted_flatten_books_iff {portfolio : Portfolio} (filed : Filed portfolio.positions)
    {szDecimals : ℤ} (spec : config.szDecimals order.symbol = some szDecimals)
    (accepted : splitRefusal (splitBasisOf portfolio order.symbol) order.side order.quantity =
      none) :
    Bookable config (splitBasisOf portfolio order.symbol) order
        ((10 : Decimal) ^ (-szDecimals)) ↔
      ⌊order.quantity / (10 : Decimal) ^ (-szDecimals)⌋ ≤
        max 0 (lotNet (splitBasisOf portfolio order.symbol) ((10 : Decimal) ^ (-szDecimals))) := by
  have distinct := splitBasisOf_distinct filed order.symbol
  constructor
  · intro bookable
    by_contra past
    exact not_bookable_past spec distinct
      (fun entry member => splitBasisOf_sized portfolio order.symbol member)
      (not_le.mp past) bookable
  · exact bookable_within spec distinct accepted

end Accepted

namespace Sample

def carry : StrategyId := ⟨"carry", by decide⟩

/-- A strategy and the unattributed partition holding `size` each. -/
def holding (size : Decimal) : Portfolio where
  account := { accountId := "paper", genesisCollateral := 0, genesisTsNs := 0, cash := 0 }
  opened := true
  positions := (Dict.empty.set (some carry, "BTC")
      { owner := some carry, symbol := "BTC", signedSize := size, entryPrice := 100 }).set
    (none, "BTC") { owner := none, symbol := "BTC", signedSize := size, entryPrice := 100 }

def wholeLot : Config where
  spec := { accountId := "paper" }
  szDecimals := fun _ => some 0

def closeOne : Order where
  cloid := "0x01"
  strategyId := operator
  signalId := ⟨operator, "BTC", 1⟩
  symbol := "BTC"
  side := .sell
  quantity := 1
  orderType := .market

theorem holding_filed {size : Decimal} (sized : size ≠ 0) : Filed (holding size).positions := by
  have settled : ∀ owner, Position.Settled
      { owner := owner, symbol := "BTC", signedSize := size, entryPrice := 100 } :=
    fun _ flat => absurd flat sized
  exact (Filed.empty.set (settled (some carry))).set (settled none)

theorem aligned_bookable :
    Bookable wholeLot (splitBasisOf (holding 1) "BTC") closeOne ((10 : Decimal) ^ (-0 : ℤ)) := by
  have accepted : splitRefusal (splitBasisOf (holding 1) closeOne.symbol) closeOne.side
      closeOne.quantity = none := by decide +kernel
  have spec : wholeLot.szDecimals closeOne.symbol = some 0 := rfl
  exact (accepted_flatten_books_iff (holding_filed one_ne_zero) spec accepted).mpr
    (by decide +kernel)

/-- **Off the lot grid an accepted order cannot be booked.**  Two partitions hold
six tenths of a lot each; an order for one lot is accepted, and its only fill
divides by zero. -/
theorem offGrid_flatten_unbookable :
    Filed (holding (6 / 10)).positions ∧
      splitRefusal (splitBasisOf (holding (6 / 10)) "BTC") closeOne.side closeOne.quantity = none ∧
      bookFills wholeLot (splitBasisOf (holding (6 / 10)) "BTC") closeOne 0
        [⟨"1", 1, 100, 0⟩] = .error (.split .zeroDivision) ∧
      ¬ Bookable wholeLot (splitBasisOf (holding (6 / 10)) "BTC") closeOne
        ((10 : Decimal) ^ (-0 : ℤ)) := by
  have filed := holding_filed (show (6 / 10 : Decimal) ≠ 0 by norm_num)
  have spec : wholeLot.szDecimals closeOne.symbol = some 0 := rfl
  refine ⟨filed, by decide +kernel, ?_, not_bookable_past spec (splitBasisOf_distinct filed "BTC")
    (fun entry member => splitBasisOf_sized _ _ member) (by decide +kernel)⟩
  have failed : (match bookFills wholeLot (splitBasisOf (holding (6 / 10)) "BTC") closeOne 0
      [⟨"1", 1, 100, 0⟩] with
    | .error fault => some fault
    | .ok _ => none) = some (.split .zeroDivision) := by decide +kernel
  cases booked : bookFills wholeLot (splitBasisOf (holding (6 / 10)) "BTC") closeOne 0
      [⟨"1", 1, 100, 0⟩] with
  | error fault => rw [booked] at failed; cases failed; rfl
  | ok pieces => rw [booked] at failed; cases failed

end Sample

end Tickwright.Engine
