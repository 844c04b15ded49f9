/-
# Domain.Position -- one partition's Tier-1 ledger, and the account's cash line

A `Position` is one `(strategy, symbol)` partition, advanced by `apply` through
the average-cost reducer `book`.  Three shapes of fill reach it, an order's
fill, a reconcile heal and one partition's piece of a flatten fill; they share
exactly the surface `BookableFill` names.

* `apply_cases` says once what a fill can do to a partition;
* sizes and fees are plain sums: a booked fill moves the size by its signed
  quantity and the fees by its fee, whatever the regime (`book_signedSize`,
  `booked_fees`);
* a partition that was `Settled` (flat only at entry zero) stays settled
  (`Settled.apply`), so a row that stores no entry for a flat partition loses
  nothing (`Settled.durable_eq`).
-/
import Tickwright.Domain.Order
import Mathlib.Tactic.Linarith
import Mathlib.Tactic.FieldSimp
import Mathlib.Tactic.Ring

namespace Tickwright.Domain

set_option autoImplicit false

/-- What a fill did to a position. -/
inductive PositionChange
  | opened
  | changed
  | closed
deriving DecidableEq

/-- The surface of a fill that `Position.apply` reads. -/
structure BookableFill where
  eventId : EventId
  owner : Owner
  symbol : Symbol
  quantity : Decimal
  price : Decimal
  fee : Decimal
deriving DecidableEq

/-- One `(strategy, symbol)` partition.  `isolatedCollateral = none` is an
unposted bucket. -/
structure Position where
  owner : Owner
  symbol : Symbol
  signedSize : Decimal := 0
  entryPrice : Decimal := 0
  realizedPnl : Decimal := 0
  fees : Decimal := 0
  funding : Decimal := 0
  isolatedCollateral : Option Decimal := some 0
  appliedEventIds : Finset EventId := ∅
deriving DecidableEq

namespace Position

def isFlat (position : Position) : Bool := decide (position.signedSize = 0)

/-- Signed size times entry price, what the open exposure cost. -/
def costBasis (position : Position) : Decimal := position.signedSize * position.entryPrice

/-- The average-cost reducer: open from flat, add, reduce or close, flip. -/
def book (position : Position) (signed price : Decimal) : Position × List PositionChange :=
  if position.signedSize = 0 then
    ({ position with signedSize := signed, entryPrice := price }, [.opened])
  else if (decide (0 < position.signedSize)) = (decide (0 < signed)) then
    let size := |position.signedSize|
    let added := |signed|
    ({ position with
        entryPrice := (position.entryPrice * size + price * added) / (size + added)
        signedSize := position.signedSize + signed }, [.changed])
  else
    let closed := min |position.signedSize| |signed|
    let direction : Decimal := if 0 < position.signedSize then 1 else -1
    let remaining := position.signedSize + signed
    let reduced := { position with
      realizedPnl := position.realizedPnl + (price - position.entryPrice) * closed * direction
      signedSize := remaining }
    if remaining = 0 then
      ({ reduced with entryPrice := 0 }, [.closed])
    else if (decide (0 < remaining)) = (decide (0 < direction)) then
      (reduced, [.changed])
    else
      ({ reduced with entryPrice := price }, [.closed, .opened])

/-- The partition a new fill leaves: the id filed, the fee charged, the size
booked. -/
def booked (position : Position) (fill : BookableFill) (side : Side) :
    Position × List PositionChange :=
  book { position with
      appliedEventIds := insert fill.eventId position.appliedEventIds
      fees := position.fees + fill.fee }
    (match side with | .buy => fill.quantity | .sell => -fill.quantity) fill.price

/-- Fold a fill into this partition.  No change at all is a redelivered fill. -/
def apply (position : Position) (fill : BookableFill) (side : Side) :
    Except InvariantViolation (Position × List PositionChange) :=
  if fill.symbol ≠ position.symbol ∨ fill.owner ≠ position.owner then
    .error (.misroutedFill fill.eventId fill.owner fill.symbol position.owner position.symbol)
  else if fill.quantity ≤ 0 then
    .error (.nonPositiveFill fill.eventId fill.quantity)
  else if fill.eventId ∈ position.appliedEventIds then
    .ok (position, [])
  else
    .ok (position.booked fill side)

/-- Add one boundary's signed funding to this partition's own line. -/
def accrueFunding (position : Position) (amount : Decimal) : Position :=
  { position with funding := position.funding + amount }

/-- What a position row keeps: no dedup set, and no entry price while flat. -/
def durable (position : Position) : Position :=
  { position with
    entryPrice := if position.isFlat then 0 else position.entryPrice
    appliedEventIds := ∅ }

/-! ## What a fill can do -/

theorem book_ne_nil (position : Position) (signed price : Decimal) :
    (position.book signed price).2 ≠ [] := by
  simp only [book]
  split_ifs <;> exact List.cons_ne_nil _ _

@[simp] theorem book_owner (position : Position) (signed price : Decimal) :
    (position.book signed price).1.owner = position.owner := by
  simp only [book]
  split_ifs <;> rfl

@[simp] theorem book_symbol (position : Position) (signed price : Decimal) :
    (position.book signed price).1.symbol = position.symbol := by
  simp only [book]
  split_ifs <;> rfl

@[simp] theorem book_fees (position : Position) (signed price : Decimal) :
    (position.book signed price).1.fees = position.fees := by
  simp only [book]
  split_ifs <;> rfl

@[simp] theorem book_funding (position : Position) (signed price : Decimal) :
    (position.book signed price).1.funding = position.funding := by
  simp only [book]
  split_ifs <;> rfl

@[simp] theorem book_isolatedCollateral (position : Position) (signed price : Decimal) :
    (position.book signed price).1.isolatedCollateral = position.isolatedCollateral := by
  simp only [book]
  split_ifs <;> rfl

@[simp] theorem book_appliedEventIds (position : Position) (signed price : Decimal) :
    (position.book signed price).1.appliedEventIds = position.appliedEventIds := by
  simp only [book]
  split_ifs <;> rfl

/-- The size moves by the signed quantity in every regime. -/
@[simp] theorem book_signedSize (position : Position) (signed price : Decimal) :
    (position.book signed price).1.signedSize = position.signedSize + signed := by
  simp only [book]
  split_ifs with flat
  · simp only [flat, zero_add]
  all_goals rfl

/-- **One fill does one of two things to its own partition**: nothing, because
its id is already filed, or the one booking it names. -/
theorem apply_cases {position after : Position} {fill : BookableFill} {side : Side}
    {changes : List PositionChange}
    (applied : position.apply fill side = .ok (after, changes)) :
    fill.symbol = position.symbol ∧ fill.owner = position.owner ∧ 0 < fill.quantity ∧
    ((fill.eventId ∈ position.appliedEventIds ∧ after = position ∧ changes = []) ∨
     (fill.eventId ∉ position.appliedEventIds ∧ (after, changes) = position.booked fill side)) := by
  simp only [apply] at applied
  split at applied
  · cases applied
  · rename_i routed
    simp only [not_or, not_not] at routed
    split at applied
    · cases applied
    · rename_i positive
      refine ⟨routed.1, routed.2, not_le.mp positive, ?_⟩
      split at applied
      · rename_i seen
        cases applied
        exact Or.inl ⟨seen, rfl, rfl⟩
      · rename_i fresh
        exact Or.inr ⟨fresh, (Except.ok.inj applied).symm⟩

section Booked

variable (position : Position) (fill : BookableFill) (side : Side)

theorem booked_signedSize :
    (position.booked fill side).1.signedSize = position.signedSize + side.sign * fill.quantity := by
  cases side <;> simp [booked, Side.sign]

theorem booked_fees : (position.booked fill side).1.fees = position.fees + fill.fee := by
  simp [booked]

theorem booked_appliedEventIds :
    (position.booked fill side).1.appliedEventIds =
      insert fill.eventId position.appliedEventIds := by
  simp [booked]

theorem booked_owner : (position.booked fill side).1.owner = position.owner := by
  simp [booked]

theorem booked_symbol : (position.booked fill side).1.symbol = position.symbol := by
  simp [booked]

theorem booked_funding : (position.booked fill side).1.funding = position.funding := by
  simp [booked]

/-- What a booked fill realizes is what its signed size realizes. -/
theorem booked_realizedPnl : (position.booked fill side).1.realizedPnl =
    (position.book (side.sign * fill.quantity) fill.price).1.realizedPnl := by
  cases side with
  | buy =>
      simp only [booked, Side.sign, one_mul, book]
      split_ifs <;> rfl
  | sell =>
      simp only [booked, Side.sign, neg_one_mul, book]
      split_ifs <;> rfl

theorem booked_ne_nil : (position.booked fill side).2 ≠ [] := book_ne_nil _ _ _

end Booked

/-! ## What a partition's fills paid -/

/-- What a partition's own fills put into the cash line: realized less fees. -/
def gain (position : Position) : Decimal := position.realizedPnl - position.fees

/-- The cash a partition's own fills took in, had each moved its whole notional:
the gain less what the open size cost. -/
def stake (position : Position) : Decimal := position.gain - position.costBasis

/-- The average of two priced sizes on one side costs what the two cost. -/
theorem average_cost {size added entry price : Decimal} (same : decide (0 < size) = decide (0 < added))
    (some_ : size ≠ 0) :
    (size + added) * ((entry * |size| + price * |added|) / (|size| + |added|)) =
      size * entry + added * price := by
  have total : |size| + |added| ≠ 0 :=
    (add_pos_of_pos_of_nonneg (abs_pos.mpr some_) (abs_nonneg added)).ne'
  by_cases long : 0 < size
  · have longToo : 0 < added := by simpa [long] using same.symm
    rw [abs_of_pos long, abs_of_pos longToo] at total ⊢
    field_simp
  · have shortToo : ¬ 0 < added := by simpa [long] using same.symm
    rw [abs_of_nonpos (not_lt.mp long), abs_of_nonpos (not_lt.mp shortToo)] at total ⊢
    have back : size + added ≠ 0 := by
      intro zero
      apply total
      linarith
    field_simp
    ring

/-- What a fill against the position closes of it, signed as the position is:
all of it, unless the rest stays on its side. -/
theorem closed_part {size signed : Decimal} (opposite : ¬decide (0 < size) = decide (0 < signed))
    (some_ : size ≠ 0) :
    min |size| |signed| * (if 0 < size then 1 else -1) =
      if size + signed ≠ 0 ∧ decide (0 < size + signed) = decide (0 < size) then -signed
      else size := by
  by_cases long : 0 < size
  · have short : signed ≤ 0 := by simpa [long] using opposite
    rw [abs_of_pos long, abs_of_nonpos short, if_pos long, mul_one]
    split_ifs with stays
    · have more : 0 < size + signed := by simpa [long] using stays.2
      rw [min_eq_right (by linarith)]
    · have rest : size + signed ≤ 0 := by
        by_contra more
        have more := not_le.mp more
        exact stays ⟨more.ne', by simp [more, long]⟩
      rw [min_eq_left (by linarith)]
  · have below : size < 0 := lt_of_le_of_ne (not_lt.mp long) some_
    have bought : 0 < signed := by simpa [long] using opposite
    rw [abs_of_neg below, abs_of_pos bought, if_neg long]
    split_ifs with stays
    · have less : size + signed ≤ 0 := by simpa [long] using stays.2
      rw [min_eq_right (by linarith)]
      ring
    · have rest : 0 ≤ size + signed := by
        by_contra less
        have less := not_le.mp less
        exact stays ⟨less.ne, by simp [less.le, long]⟩
      rw [min_eq_left (by linarith)]
      ring

theorem direction_pos (size : Decimal) :
    decide ((0 : Decimal) < if 0 < size then 1 else -1) = decide (0 < size) := by
  by_cases long : 0 < size
  · simp [long]
  · simp [long]

/-- **Every regime of the reducer moves realized less cost by the notional**:
opening, adding, reducing or closing, and flipping through zero. -/
theorem book_stake (position : Position) (signed price : Decimal) :
    (position.book signed price).1.stake = position.stake - signed * price := by
  unfold stake gain costBasis
  by_cases flat : position.signedSize = 0
  · simp only [book, if_pos flat]
    rw [flat]
    ring
  by_cases same : decide (0 < position.signedSize) = decide (0 < signed)
  · simp only [book, if_neg flat, if_pos same]
    rw [average_cost same flat]
    ring
  have part := closed_part same flat
  simp only [book, if_neg flat, if_neg same, direction_pos, mul_assoc, part]
  by_cases closes : position.signedSize + signed = 0
  · -- Closed to nothing: the whole size is realized.
    have back : signed = -position.signedSize := by linarith
    rw [if_pos closes, if_neg fun stays => stays.1 closes]
    simp only [back]
    ring
  rw [if_neg closes]
  by_cases stays : decide (0 < position.signedSize + signed) = decide (0 < position.signedSize)
  · -- Reduced: what was closed is realized at the entry that stays.
    rw [if_pos stays, if_pos ⟨closes, stays⟩]
    simp only
    ring
  · -- Flipped: the old size is realized, the rest opens at the fill's price.
    rw [if_neg stays, if_neg fun both => stays both.2]
    simp only
    ring

/-- A booked fill costs its signed notional and its fee. -/
theorem booked_stake (position : Position) (fill : BookableFill) (side : Side) :
    (position.booked fill side).1.stake =
      position.stake - (side.sign * fill.quantity * fill.price + fill.fee) := by
  unfold booked
  rw [book_stake]
  unfold stake gain costBasis
  cases side
  · simp only [Side.sign]
    ring
  · simp only [Side.sign]
    ring

/-- **A fill realizes nothing exactly where it is no reduction or is at the
entry**: from flat, on the position's own side, or at its own average price. -/
theorem book_realized_iff (position : Position) {signed : Decimal} (some_ : signed ≠ 0)
    (price : Decimal) : (position.book signed price).1.realizedPnl = position.realizedPnl ↔
      0 ≤ signed * position.signedSize ∨ price = position.entryPrice := by
  by_cases flat : position.signedSize = 0
  · simp only [book, if_pos flat]
    rw [flat, mul_zero]
    exact ⟨fun _ => Or.inl (le_refl 0), fun _ => trivial⟩
  by_cases same : decide (0 < position.signedSize) = decide (0 < signed)
  · simp only [book, if_neg flat, if_pos same]
    refine ⟨fun _ => Or.inl ?_, fun _ => trivial⟩
    by_cases long : 0 < position.signedSize
    · have bought : 0 < signed := by simpa [long] using same.symm
      exact (mul_pos bought long).le
    · have sold : ¬ 0 < signed := by simpa [long] using same.symm
      exact mul_nonneg_of_nonpos_of_nonpos (not_lt.mp sold) (not_lt.mp long)
  have against : ¬ 0 ≤ signed * position.signedSize := by
    rw [not_le]
    by_cases long : 0 < position.signedSize
    · have sold : signed ≤ 0 := by simpa [long] using same
      exact mul_neg_of_neg_of_pos (lt_of_le_of_ne sold some_) long
    · have bought : 0 < signed := by simpa [long] using same
      exact mul_neg_of_pos_of_neg bought (lt_of_le_of_ne (not_lt.mp long) flat)
  have closed : min |position.signedSize| |signed| *
      (if 0 < position.signedSize then (1 : Decimal) else -1) ≠ 0 := by
    rw [closed_part same flat]
    split
    · exact neg_ne_zero.mpr some_
    · exact flat
  have realized : (position.book signed price).1.realizedPnl = position.realizedPnl +
      (price - position.entryPrice) * (min |position.signedSize| |signed| *
        (if 0 < position.signedSize then 1 else -1)) := by
    simp only [book, if_neg flat, if_neg same, ← mul_assoc]
    split_ifs <;> rfl
  rw [realized]
  constructor
  · intro unmoved
    have zero : (price - position.entryPrice) * (min |position.signedSize| |signed| *
        (if 0 < position.signedSize then 1 else -1)) = 0 := by linarith
    rcases mul_eq_zero.mp zero with level | none_
    · exact Or.inr (sub_eq_zero.mp level)
    · exact absurd none_ closed
  · rintro (along | level)
    · exact absurd along against
    · rw [level, sub_self, zero_mul, add_zero]

/-! ## Settled partitions -/

/-- A flat partition carries no entry price. -/
def Settled (position : Position) : Prop := position.signedSize = 0 → position.entryPrice = 0

theorem settled_new (owner : Owner) (symbol : Symbol) :
    Settled { owner := owner, symbol := symbol } := fun _ => rfl

theorem Settled.book {position : Position} {signed price : Decimal} (ne : signed ≠ 0) :
    Settled (position.book signed price).1 := by
  intro flat
  have total : position.signedSize + signed = 0 := by
    rw [← book_signedSize position signed price]; exact flat
  simp only [Position.book]
  split_ifs with fromFlat same
  · rw [fromFlat, zero_add] at total
    exact absurd total ne
  · -- Adding on one side never reaches flat.
    exfalso
    have opposite : signed = -position.signedSize := by linarith
    rw [opposite] at same
    rcases lt_or_gt_of_ne fromFlat with short | long
    · simp [short, not_lt.mpr short.le] at same
    · simp [long, not_lt.mpr long.le] at same
  all_goals rfl

theorem Settled.apply {position after : Position} {fill : BookableFill} {side : Side}
    {changes : List PositionChange} (settled : Settled position)
    (applied : position.apply fill side = .ok (after, changes)) : Settled after := by
  obtain ⟨_, _, positive, ⟨_, rfl, _⟩ | ⟨_, moved⟩⟩ := apply_cases applied
  · exact settled
  · have eq : after = (position.booked fill side).1 := congrArg Prod.fst moved
    rw [eq]
    simp only [booked]
    apply Settled.book
    cases side
    · exact positive.ne'
    · exact neg_ne_zero.mpr positive.ne'

theorem Settled.accrueFunding {position : Position} (settled : Settled position)
    (amount : Decimal) : Settled (position.accrueFunding amount) := settled

/-- A settled partition's row loses the dedup set and nothing else. -/
theorem Settled.durable_eq {position : Position} (settled : Settled position) :
    position.durable = { position with appliedEventIds := ∅ } := by
  simp only [durable, isFlat]
  by_cases flat : position.signedSize = 0
  · simp [flat, settled flat]
  · simp [flat]

@[simp] theorem durable_owner (position : Position) :
    position.durable.owner = position.owner := rfl
@[simp] theorem durable_symbol (position : Position) :
    position.durable.symbol = position.symbol := rfl
@[simp] theorem durable_signedSize (position : Position) :
    position.durable.signedSize = position.signedSize := rfl
@[simp] theorem durable_fees (position : Position) :
    position.durable.fees = position.fees := rfl
@[simp] theorem durable_realizedPnl (position : Position) :
    position.durable.realizedPnl = position.realizedPnl := rfl
@[simp] theorem durable_appliedEventIds (position : Position) :
    position.durable.appliedEventIds = ∅ := rfl

theorem durable_settled (position : Position) : Settled position.durable := by
  intro flat
  simp only [durable_signedSize] at flat
  simp [durable, isFlat, flat]

end Position

/-! ## The account -/

/-- `AccountSpec`: `genesisCollateral` is declared on paper and `none` on live. -/
structure AccountSpec where
  accountId : String
  genesisCollateral : Option Decimal := none
deriving DecidableEq

def AccountSpec.declaresGenesis (spec : AccountSpec) : Bool := spec.genesisCollateral.isSome

/-- One collateral pool's cash line, plus the declaration it opened on. -/
structure Account where
  accountId : String
  genesisCollateral : Decimal
  genesisTsNs : Nanos
  cash : Decimal
deriving DecidableEq

namespace Account

/-- Seed a fresh ledger at the opening cash the spec declares, zero if none. -/
def openAt (spec : AccountSpec) (tsNs : Nanos) : Account where
  accountId := spec.accountId
  genesisCollateral := spec.genesisCollateral.getD 0
  genesisTsNs := tsNs
  cash := spec.genesisCollateral.getD 0

def accrueRealized (account : Account) (amount : Decimal) : Account :=
  { account with cash := account.cash + amount }

/-- A fee arrives positive as a cost, and cash moves the other way. -/
def accrueFee (account : Account) (fee : Decimal) : Account :=
  { account with cash := account.cash - fee }

def accrueFunding (account : Account) (funding : Decimal) : Account :=
  { account with cash := account.cash + funding }

/-- Set the cash line to venue truth: a target, not a delta. -/
def correctCash (account : Account) (target : Decimal) : Account :=
  { account with cash := target }

end Account

/-- What the account was opened as, written once. -/
def Account.identity (account : Account) : String × Decimal × Nanos :=
  (account.accountId, account.genesisCollateral, account.genesisTsNs)

@[simp] theorem Account.accrueRealized_identity (account : Account) (amount : Decimal) :
    (account.accrueRealized amount).identity = account.identity := rfl
@[simp] theorem Account.accrueFee_identity (account : Account) (fee : Decimal) :
    (account.accrueFee fee).identity = account.identity := rfl
@[simp] theorem Account.accrueFunding_identity (account : Account) (funding : Decimal) :
    (account.accrueFunding funding).identity = account.identity := rfl
@[simp] theorem Account.correctCash_identity (account : Account) (target : Decimal) :
    (account.correctCash target).identity = account.identity := rfl

end Tickwright.Domain
