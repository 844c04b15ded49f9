/-
# Paper.Book -- the resting orders of the paper venue

The resting LIMIT orders and the size still working on each.  Two things are
carried by the types and never proved again: a resting order never works more
than it asked for (`Resting.capped`), and it rests under its own cloid
(`RestingBook.keyed`).

Each fill is capped to what is still working and lifts the order off the book
once nothing is (`applyFill_cases`); a shrink only lowers the working size
(`get_shrink`).
-/
import Tickwright.Domain.Instrument
import Tickwright.Theory.Dict

namespace Tickwright.Paper

open Tickwright.Domain Tickwright.Theory

set_option autoImplicit false

/-! ## One resting order -/

/-- A resting order, the size the venue works it at, and what has filled.  `order`
keeps the size it was put on the book with; `working` starts there and only goes
down. -/
structure Resting where
  order : LimitOrder
  working : Decimal
  filled : Decimal := 0
  capped : working ≤ order.quantity
deriving DecidableEq

namespace Resting

def remaining (resting : Resting) : Decimal := resting.working - resting.filled

/-- The order at its working size, which is what the fill model is handed. -/
def atWorkingSize (resting : Resting) : LimitOrder :=
  { resting.order with quantity := resting.working }

/-- Put an order on the book at `working`, never above the size it asks for. -/
def put (order : LimitOrder) (working : Decimal) : Resting where
  order := order
  working := min working order.quantity
  capped := min_le_right _ _

/-- Lower what is still working to at most `remaining`. -/
def shrink (resting : Resting) (remaining : Decimal) : Resting :=
  { resting with
    working := resting.filled + min resting.remaining remaining
    capped := by
      have less : resting.filled + min resting.remaining remaining ≤ resting.working := by
        have := min_le_left resting.remaining remaining
        simp only [Resting.remaining] at this ⊢
        linarith
      exact less.trans resting.capped }

/-- Fill at most what is still working. -/
def fill (resting : Resting) (quantity : Decimal) : Resting :=
  { resting with filled := resting.filled + min quantity resting.remaining }

/-- Whether the order works below the size it was put on the book with. -/
def shrunk (resting : Resting) : Bool := decide (resting.working < resting.order.quantity)

@[simp] theorem put_order (order : LimitOrder) (working : Decimal) :
    (put order working).order = order := rfl

@[simp] theorem put_remaining (order : LimitOrder) (working : Decimal) :
    (put order working).remaining = min working order.quantity := sub_zero _

@[simp] theorem shrink_order (resting : Resting) (remaining : Decimal) :
    (resting.shrink remaining).order = resting.order := rfl

@[simp] theorem shrink_filled (resting : Resting) (remaining : Decimal) :
    (resting.shrink remaining).filled = resting.filled := rfl

theorem shrink_remaining (resting : Resting) (remaining : Decimal) :
    (resting.shrink remaining).remaining = min resting.remaining remaining := by
  simp only [shrink, Resting.remaining]
  ring

@[simp] theorem fill_order (resting : Resting) (quantity : Decimal) :
    (resting.fill quantity).order = resting.order := rfl

@[simp] theorem fill_filled (resting : Resting) (quantity : Decimal) :
    (resting.fill quantity).filled = resting.filled + min quantity resting.remaining := rfl

theorem fill_remaining (resting : Resting) (quantity : Decimal) :
    (resting.fill quantity).remaining = resting.remaining - min quantity resting.remaining := by
  simp only [fill, Resting.remaining]
  ring

end Resting

/-! ## The book -/

/-- Resting LIMITs keyed by cloid. -/
structure RestingBook where
  orders : Dict Cloid Resting
  keyed : ∀ cloid resting, orders.get cloid = some resting → resting.order.cloid = cloid

/-- What one fill did to a resting order. -/
structure BookFill where
  filled : Decimal
  complete : Bool
  /-- Only on the fill that completes an order working below its size. -/
  shrunk : Bool
deriving DecidableEq

namespace RestingBook

def empty : RestingBook := ⟨Dict.empty, fun _ _ there => by simp at there⟩

instance : Inhabited RestingBook := ⟨empty⟩

def get (book : RestingBook) (cloid : Cloid) : Option Resting := book.orders.get cloid

/-- Write a resting order under its own cloid. -/
def write (book : RestingBook) (resting : Resting) : RestingBook where
  orders := book.orders.set resting.order.cloid resting
  keyed := by
    intro cloid other there
    rw [Dict.get_set] at there
    split at there
    · rename_i same
      cases there
      exact same
    · exact book.keyed cloid other there

/-- Lift an order off the book. -/
def remove (book : RestingBook) (cloid : Cloid) : RestingBook where
  orders := book.orders.erase cloid
  keyed := by
    intro other resting there
    rw [Dict.get_erase] at there
    split at there
    · cases there
    · exact book.keyed other resting there

/-- Put `order` on the book at `working`. -/
def rest (book : RestingBook) (order : LimitOrder) (working : Decimal) : RestingBook :=
  book.write (Resting.put order working)

/-- One resting order at its working size, or `none` if it has left the book. -/
def working (book : RestingBook) (cloid : Cloid) : Option LimitOrder :=
  (book.get cloid).map Resting.atWorkingSize

/-- A snapshot of the resting orders at their working size, oldest first. -/
def resting (book : RestingBook) : List LimitOrder :=
  book.orders.values.map Resting.atWorkingSize

/-- Lower what is still working on an order to at most `remaining`. -/
def shrink (book : RestingBook) (cloid : Cloid) (remaining : Decimal) : RestingBook :=
  match book.get cloid with
  | none => book
  | some resting => book.write (resting.shrink remaining)

/-- Fill `quantity` against the working remainder of a resting order. -/
def applyFill (book : RestingBook) (cloid : Cloid) (quantity : Decimal) :
    Except InvariantViolation (BookFill × RestingBook) :=
  match book.get cloid with
  | none => .error (.notResting cloid)
  | some resting =>
      let filled := min quantity resting.remaining
      let after := resting.fill quantity
      if after.remaining ≤ 0 then
        .ok (⟨filled, true, resting.shrunk⟩, book.remove cloid)
      else
        .ok (⟨filled, false, false⟩, book.write after)

/-- Whether a fill has already reduced this order's working remainder. -/
def hasPartial (book : RestingBook) (cloid : Cloid) : Bool :=
  (book.get cloid).any fun resting => decide (0 < resting.filled)

/-! ## Reads -/

@[simp] theorem get_empty (cloid : Cloid) : empty.get cloid = none := rfl

theorem get_write (book : RestingBook) (resting : Resting) (cloid : Cloid) :
    (book.write resting).get cloid =
      if resting.order.cloid = cloid then some resting else book.get cloid :=
  Dict.get_set ..

theorem get_remove (book : RestingBook) (cloid other : Cloid) :
    (book.remove cloid).get other = if cloid = other then none else book.get other :=
  Dict.get_erase ..

theorem get_rest (book : RestingBook) (order : LimitOrder) (working : Decimal) (cloid : Cloid) :
    (book.rest order working).get cloid =
      if order.cloid = cloid then some (Resting.put order working) else book.get cloid :=
  book.get_write ..

/-- **A shrink lowers one order's working size and leaves every other order.** -/
theorem get_shrink (book : RestingBook) (cloid other : Cloid) (remaining : Decimal) :
    (book.shrink cloid remaining).get other =
      if cloid = other then (book.get other).map fun resting => resting.shrink remaining
      else book.get other := by
  simp only [shrink]
  cases there : book.get cloid with
  | none =>
      by_cases same : cloid = other
      · subst same
        simp [there]
      · simp [same]
  | some resting =>
      have keyed := book.keyed cloid resting there
      simp only [get_write, Resting.shrink_order, keyed]
      by_cases same : cloid = other
      · subst same
        simp [there]
      · simp [same]

theorem mem_resting {book : RestingBook} {order : LimitOrder} (member : order ∈ book.resting) :
    ∃ resting, book.get order.cloid = some resting ∧ order = resting.atWorkingSize := by
  obtain ⟨resting, there, rfl⟩ := List.mem_map.mp member
  obtain ⟨cloid, there⟩ := (Dict.mem_values _ _).mp there
  have keyed := book.keyed cloid resting there
  refine ⟨resting, ?_, rfl⟩
  show book.get resting.order.cloid = some resting
  rw [keyed]
  exact there

theorem resting_mem {book : RestingBook} {cloid : Cloid} {resting : Resting}
    (there : book.get cloid = some resting) : resting.atWorkingSize ∈ book.resting :=
  List.mem_map_of_mem ((Dict.mem_values _ _).mpr ⟨cloid, there⟩)

/-- No two resting orders share a cloid. -/
theorem resting_nodup (book : RestingBook) :
    (book.resting.map fun order => order.cloid).Nodup := by
  have named : (book.resting.map fun order => order.cloid) = book.orders.keys := by
    simp only [resting, Dict.values, Dict.keys, List.map_map]
    apply List.map_congr_left
    intro entry member
    exact book.keyed entry.1 entry.2 ((Dict.get_eq_some _ _ _).mpr member)
  rw [named]
  exact book.orders.keys_nodup

theorem working_eq_some {book : RestingBook} {cloid : Cloid} {order : LimitOrder}
    (there : book.working cloid = some order) :
    order.cloid = cloid ∧
      ∃ resting, book.get cloid = some resting ∧ order = resting.atWorkingSize := by
  obtain ⟨resting, held, rfl⟩ := Option.map_eq_some_iff.mp there
  exact ⟨book.keyed cloid resting held, resting, held, rfl⟩

/-- **What a fill does to a resting order**: it takes at most what is still
working, and the order leaves the book exactly when nothing is left. -/
theorem applyFill_cases {book after : RestingBook} {cloid : Cloid} {quantity : Decimal}
    {result : BookFill} (filled : book.applyFill cloid quantity = .ok (result, after)) :
    ∃ resting, book.get cloid = some resting ∧
      result.filled = min quantity resting.remaining ∧
      ((resting.remaining ≤ quantity ∧ result.complete = true ∧ result.shrunk = resting.shrunk ∧
          after = book.remove cloid) ∨
        (quantity < resting.remaining ∧ result.complete = false ∧ result.shrunk = false ∧
          after = book.write (resting.fill quantity))) := by
  simp only [applyFill] at filled
  cases there : book.get cloid with
  | none => rw [there] at filled; cases filled
  | some resting =>
      simp only [there, Resting.fill_remaining, tsub_le_iff_right, zero_add, le_min_iff, le_refl,
        and_true] at filled
      refine ⟨resting, rfl, ?_⟩
      split at filled
      · rename_i whole
        cases filled
        exact ⟨rfl, Or.inl ⟨whole, rfl, rfl, rfl⟩⟩
      · rename_i short
        cases filled
        exact ⟨rfl, Or.inr ⟨not_le.mp short, rfl, rfl, rfl⟩⟩

/-- A fill lands on any order that rests. -/
theorem applyFill_ok {book : RestingBook} {cloid : Cloid} {resting : Resting} (quantity : Decimal)
    (there : book.get cloid = some resting) :
    ∃ result after, book.applyFill cloid quantity = .ok (result, after) := by
  simp only [applyFill, there]
  split
  · exact ⟨_, _, rfl⟩
  · exact ⟨_, _, rfl⟩

/-- A fill leaves every other order. -/
theorem get_applyFill_ne {book after : RestingBook} {cloid other : Cloid} {quantity : Decimal}
    {result : BookFill} (filled : book.applyFill cloid quantity = .ok (result, after))
    (ne : cloid ≠ other) : after.get other = book.get other := by
  obtain ⟨resting, there, _, ⟨_, _, _, rfl⟩ | ⟨_, _, _, rfl⟩⟩ := applyFill_cases filled
  · rw [get_remove, if_neg ne]
  · rw [get_write, Resting.fill_order, book.keyed cloid resting there, if_neg ne]

end RestingBook

end Tickwright.Paper
