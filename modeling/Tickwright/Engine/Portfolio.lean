/-
# Engine.Portfolio -- the ledger's read-model and its folds

The in-memory half of the ledger: the account, the partitions by owner and
symbol, and the fill stamps.  Each fold (`applyFill`, `applyHeal`,
`applyFunding`) moves the read-model and returns a change the caller makes
durable before it hands it back to `project`.

A partition the read-model already holds is advanced in place by its fold, so
the change beside it and the filed record are one object; a partition's first
fill moves a record that is filed only by `project`.  `LedgerChange.filed` keeps
that difference, and `LedgerChange.current` reads the object either way.

`applyFill_cases` says once what a fill can do here: nothing at all, or one
booking whose sizes, fees and realized leg reach the partition and the cash line
together.
-/
import Tickwright.Store.Store

namespace Tickwright.Engine

open Tickwright.Domain Tickwright.Theory Tickwright.Store

set_option autoImplicit false

/-- What a run is configured with: the venue's declaration, the resolved
leverage book, and the size decimals of each known instrument. -/
structure Config where
  spec : AccountSpec
  leverageFor : Symbol → LeverageSpec := fun _ => {}
  szDecimals : Symbol → Option ℤ := fun _ => none

/-- What do I hold, and what has it earned. -/
structure Portfolio where
  account : Account
  opened : Bool := false
  positions : Dict PartitionKey Position := Dict.empty
  fillsApplied : ℕ := 0
  lastFills : Dict Symbol ℕ := Dict.empty

/-- A fold awaiting durability.  `filed` says the read-model already held the
partition, so `position` is the filed object itself. -/
structure LedgerChange where
  position : Position
  filed : Bool
  changes : List PositionChange

/-- One reconcile cycle's fold. -/
structure HealChange where
  fills : List LedgerChange
  applied : List EventId
  collateral : List PartitionKey

/-- One accrual's fold. -/
structure FundingChange where
  positions : List PartitionKey
  fundingMark : Symbol × Nanos

namespace LedgerChange

def key (change : LedgerChange) : PartitionKey := keyOf change.position

/-- The partition as it stands now: the filed object where there is one. -/
def current (change : LedgerChange) (portfolio : Portfolio) : Position :=
  if change.filed then (portfolio.positions.get change.key).getD change.position
  else change.position

end LedgerChange

namespace Portfolio

/-- The projection before any recovery. -/
def openAt (config : Config) (tsNs : Nanos) : Portfolio where
  account := Account.openAt config.spec tsNs

/-! ## Folding a fill -/

/-- Set an isolated position's own margin after a fill moves the position. -/
def lockIsolatedCollateral (config : Config) (position : Position)
    (changes : List PositionChange) : Position :=
  let released := if .closed ∈ changes then { position with isolatedCollateral := some 0 }
    else position
  let opened := decide (PositionChange.opened ∈ changes)
  if !opened && !decide (PositionChange.changed ∈ changes) then
    released
  else
    let leverage := config.leverageFor position.symbol
    match leverage.mode with
    | .cross => released
    | .isolated =>
        if !config.spec.declaresGenesis then
          { released with isolatedCollateral := none }
        else if !opened then
          released
        else
          { released with
            isolatedCollateral :=
              some (|position.signedSize| * position.entryPrice / leverage.leverage) }

/-- The record a fill finds: the filed one, or a new flat one. -/
def partition (portfolio : Portfolio) (key : PartitionKey) : Position :=
  (portfolio.positions.get key).getD { owner := key.1, symbol := key.2 }

/-- Fold a fill into its partition and the cash line. -/
def applyFill (config : Config) (portfolio : Portfolio) (fill : BookableFill) (side : Side) :
    Except InvariantViolation (Portfolio × LedgerChange) :=
  let key : PartitionKey := (fill.owner, fill.symbol)
  let filed := (portfolio.positions.get key).isSome
  let before := portfolio.partition key
  match before.apply fill side with
  | .error fault => .error fault
  | .ok (booked, changes) =>
      let locked := lockIsolatedCollateral config booked changes
      let account :=
        if changes.isEmpty then portfolio.account
        else
          (portfolio.account.accrueRealized (booked.realizedPnl - before.realizedPnl)).accrueFee
            (booked.fees - before.fees)
      let fillsApplied :=
        if changes.isEmpty then portfolio.fillsApplied else portfolio.fillsApplied + 1
      let lastFills :=
        if changes.isEmpty then portfolio.lastFills
        else portfolio.lastFills.set fill.symbol (portfolio.fillsApplied + 1)
      .ok
        ({ portfolio with
            account := account
            positions := if filed then portfolio.positions.set key locked
              else portfolio.positions
            fillsApplied := fillsApplied
            lastFills := lastFills },
          { position := locked, filed := filed, changes := changes })

/-- Fold fills in order, as one batch. -/
def applyFills (config : Config) (portfolio : Portfolio) :
    List (BookableFill × Side) → Except InvariantViolation (Portfolio × List LedgerChange)
  | [] => .ok (portfolio, [])
  | (fill, side) :: rest =>
      match portfolio.applyFill config fill side with
      | .error fault => .error fault
      | .ok (moved, change) =>
          match applyFills config moved rest with
          | .error fault => .error fault
          | .ok (last, changes) => .ok (last, change :: changes)

/-- File the change's partition once its write has landed. -/
def project (portfolio : Portfolio) (change : LedgerChange) : Portfolio :=
  if change.filed then portfolio
  else { portfolio with positions := portfolio.positions.set change.key change.position }

/-! ## The account grain's heal -/

/-- The account net size of one symbol, over every filed partition. -/
def accountNet (portfolio : Portfolio) (symbol : Symbol) : Decimal :=
  ((portfolio.positions.values.filter fun position => position.symbol = symbol).map
    Position.signedSize).sum

/-- Divide a total by weight; the last entry takes the residue. -/
def shareOut (total weight : Decimal) : List Decimal → List Decimal
  | [] => []
  | weights =>
      let shares := weights.dropLast.map fun w => total * w / weight
      shares ++ [total - shares.sum]

/-- Divide one symbol's venue bucket across the partitions holding it. -/
def share (bucket : Decimal) (across : List Position) : List Decimal :=
  let sizes := across.map fun position => |position.signedSize|
  if sizes.sum = 0 then across.map fun _ => 0 else shareOut bucket sizes.sum sizes

/-- The partitions holding a symbol, in filing order. -/
def across (portfolio : Portfolio) (symbol : Symbol) : List Position :=
  portfolio.positions.values.filter fun position => position.symbol = symbol

/-- Each partition beside its share of the bucket the venue posts. -/
def venueShares (portfolio : Portfolio) (snapshot : VenueAccountState) :
    List (Position × Decimal) :=
  let symbols := (portfolio.positions.values.map Position.symbol).eraseDups
  symbols.flatMap fun symbol =>
    let bucket := (snapshot.positions.reverse.find? fun position => position.symbol = symbol).bind
      VenuePositionState.isolatedCollateral
    (portfolio.across symbol).zip (share (bucket.getD 0) (portfolio.across symbol))

/-- The venue's size for a symbol, zero when it holds none. -/
def venueSize (snapshot : VenueAccountState) (symbol : Symbol) : Decimal :=
  ((snapshot.positions.reverse.find? fun position => position.symbol = symbol).map
    VenuePositionState.signedSize).getD 0

/-- Post one share onto its partition, unless the bucket is unposted and the
snapshot does not carry our position, or it is there already. -/
def postShare (carried : Symbol → Bool)
    (state : Portfolio × List PartitionKey) (posted : Position × Decimal) :
    Portfolio × List PartitionKey :=
  let position := posted.1
  if position.isolatedCollateral = none ∧ carried position.symbol = false then
    state
  else if position.isolatedCollateral = some posted.2 then
    state
  else
    ({ state.1 with
        positions := state.1.positions.set (keyOf position)
          { position with isolatedCollateral := some posted.2 } },
      state.2 ++ [keyOf position])

/-- Take the venue's locked buckets onto the partitions holding them. -/
def ingestCollateral (portfolio : Portfolio) (snapshot : VenueAccountState) :
    Portfolio × List PartitionKey :=
  let carried := fun symbol => decide (venueSize snapshot symbol = portfolio.accountNet symbol)
  (portfolio.venueShares snapshot).foldl (postShare carried) (portfolio, [])

/-- The partitions held, the unfiled ones of this batch counted too. -/
def held (portfolio : Portfolio) (folded : List LedgerChange) : Dict PartitionKey Position :=
  portfolio.positions.setAll (folded.map fun change => (change.key, change.current portfolio))

/-- The ingest of an optional snapshot: no snapshot moves nothing. -/
def ingest (portfolio : Portfolio) : Option VenueAccountState → Portfolio × List PartitionKey
  | none => (portfolio, [])
  | some snapshot => portfolio.ingestCollateral snapshot

/-- Set the cash line to the venue's net cash plus the ledger's cost basis. -/
def correct (portfolio : Portfolio) (folded : List LedgerChange) :
    Option CashCorrection → Portfolio
  | none => portfolio
  | some cash =>
      let basis := (portfolio.held folded).sum Position.costBasis
      { portfolio with account := portfolio.account.correctCash (cash.netCash + basis) }

/-- Fold one cycle's Tier-1 heals: the fills, then the buckets, then the cash
line.  `none` when the fold moved nothing. -/
def applyHeal (config : Config) (portfolio : Portfolio) (fills : List ReconciliationFill)
    (cash : Option CashCorrection) (snapshot : Option VenueAccountState) :
    Except InvariantViolation (Option (Portfolio × HealChange)) :=
  match portfolio.applyFills config (fills.map fun fill => (fill.bookable, fill.side)) with
  | .error fault => .error fault
  | .ok (folded, changes) =>
      let applied := ((fills.zip changes).filter fun pair => !pair.2.changes.isEmpty).map
        fun pair => pair.1.bookable.eventId
      let ingested := folded.ingest snapshot
      if applied.isEmpty && cash.isNone && ingested.2.isEmpty then
        .ok none
      else
        .ok (some (ingested.1.correct changes cash, ⟨changes, applied, ingested.2⟩))

/-! ## Funding -/

/-- Attribute one symbol's accrual across the partitions holding it. -/
def splitAccrual (amount : Decimal) (across : List Position) : List Position :=
  let net := (across.map Position.signedSize).sum
  if across.isEmpty || decide (net = 0) then
    across
  else
    (across.zip (shareOut amount net (across.map Position.signedSize))).map fun pair =>
      pair.1.accrueFunding pair.2

/-- Fold one settled boundary into the funding lines and the cash line.  `none`
when the genesis instant or the durable watermark already covers it. -/
def applyFunding (portfolio : Portfolio) (mark : Option Nanos) (accrual : FundingAccrual) :
    Option (Portfolio × FundingChange) :=
  if accrual.boundaryTsNs ≤ portfolio.account.genesisTsNs then
    none
  else if mark.any fun applied => accrual.boundaryTsNs ≤ applied then
    none
  else
    let exposed := (portfolio.across accrual.symbol).filter fun position => !position.isFlat
    let accrued := splitAccrual accrual.amount exposed
    some
      ({ portfolio with
          account := portfolio.account.accrueFunding accrual.amount
          positions := portfolio.positions.setAll
            (accrued.map fun position => (keyOf position, position)) },
        ⟨accrued.map keyOf, (accrual.symbol, accrual.boundaryTsNs)⟩)

/-! ## What a fill can do here -/

@[simp] theorem lockIsolatedCollateral_nil (config : Config) (position : Position) :
    lockIsolatedCollateral config position [] = position := rfl

/-- The lock touches the bucket and nothing else. -/
theorem lockIsolatedCollateral_eq (config : Config) (position : Position)
    (changes : List PositionChange) :
    ∃ bucket, lockIsolatedCollateral config position changes =
      { position with isolatedCollateral := bucket } := by
  simp only [lockIsolatedCollateral]
  by_cases closed : PositionChange.closed ∈ changes
  · simp only [closed, if_true]
    split
    · exact ⟨_, rfl⟩
    · split
      · exact ⟨_, rfl⟩
      · split
        · exact ⟨_, rfl⟩
        · split
          · exact ⟨_, rfl⟩
          · exact ⟨_, rfl⟩
  · simp only [closed, if_false]
    split
    · exact ⟨position.isolatedCollateral, rfl⟩
    · split
      · exact ⟨position.isolatedCollateral, rfl⟩
      · split
        · exact ⟨_, rfl⟩
        · split
          · exact ⟨position.isolatedCollateral, rfl⟩
          · exact ⟨_, rfl⟩

theorem partition_owner {portfolio : Portfolio} {key : PartitionKey}
    (keyed : ∀ k position, portfolio.positions.get k = some position → keyOf position = k) :
    keyOf (portfolio.partition key) = key := by
  simp only [partition]
  cases there : portfolio.positions.get key with
  | none => rfl
  | some position => exact keyed key position there

/-- Every partition is filed under its own key. -/
def Keyed (portfolio : Portfolio) : Prop :=
  ∀ k position, portfolio.positions.get k = some position → keyOf position = k

/-- A fill of a positive quantity is never refused by its own partition. -/
theorem applyFill_defined {config : Config} {portfolio : Portfolio} (keyed : portfolio.Keyed)
    {fill : BookableFill} {side : Side} (positive : 0 < fill.quantity) :
    ∃ after change, portfolio.applyFill config fill side = .ok (after, change) := by
  have keyOf_eq : keyOf (portfolio.partition (fill.owner, fill.symbol)) =
      (fill.owner, fill.symbol) := partition_owner keyed
  have owner : (portfolio.partition (fill.owner, fill.symbol)).owner = fill.owner :=
    congrArg Prod.fst keyOf_eq
  have symbol : (portfolio.partition (fill.owner, fill.symbol)).symbol = fill.symbol :=
    congrArg Prod.snd keyOf_eq
  have applied : ∃ booked moved, (portfolio.partition (fill.owner, fill.symbol)).apply fill side =
      .ok (booked, moved) := by
    unfold Position.apply
    rw [if_neg (by simp [owner, symbol]), if_neg (not_le.mpr positive)]
    split
    · exact ⟨_, _, rfl⟩
    · exact ⟨_, _, rfl⟩
  obtain ⟨booked, moved, is⟩ := applied
  unfold applyFill
  simp only [is]
  exact ⟨_, _, rfl⟩

/-- **One fill does one of two things to the ledger**: nothing at all, because
its partition already files the id, or one booking. -/
theorem applyFill_cases {config : Config} {portfolio after : Portfolio} {fill : BookableFill}
    {side : Side} {change : LedgerChange}
    (folded : portfolio.applyFill config fill side = .ok (after, change)) :
    let before := portfolio.partition (fill.owner, fill.symbol)
    0 < fill.quantity ∧
    change.filed = (portfolio.positions.get (fill.owner, fill.symbol)).isSome ∧
    after.opened = portfolio.opened ∧
    after.positions =
      (if change.filed then portfolio.positions.set (fill.owner, fill.symbol) change.position
       else portfolio.positions) ∧
    ((fill.eventId ∈ before.appliedEventIds ∧ change.position = before ∧
        change.changes = [] ∧ after.account = portfolio.account) ∨
     (fill.eventId ∉ before.appliedEventIds ∧
        (∃ bucket, change.position =
          { (before.booked fill side).1 with isolatedCollateral := bucket }) ∧
        change.changes = (before.booked fill side).2 ∧
        after.account =
          (portfolio.account.accrueRealized
            ((before.booked fill side).1.realizedPnl - before.realizedPnl)).accrueFee
            ((before.booked fill side).1.fees - before.fees))) := by
  intro before
  simp only [applyFill] at folded
  split at folded
  · cases folded
  · rename_i booked changes applied
    cases folded
    obtain ⟨_, _, positive, ⟨seen, same, none⟩ | ⟨fresh, moved⟩⟩ := Position.apply_cases applied
    · subst same none
      refine ⟨positive, rfl, rfl, rfl, Or.inl ⟨seen, rfl, rfl, rfl⟩⟩
    · have bookedEq : booked = (before.booked fill side).1 := congrArg Prod.fst moved
      have changesEq : changes = (before.booked fill side).2 := congrArg Prod.snd moved
      have some : changes.isEmpty = false := by
        rw [changesEq, List.isEmpty_eq_false_iff]
        exact Position.booked_ne_nil before fill side
      refine ⟨positive, rfl, rfl, rfl, Or.inr ⟨fresh, ?_, changesEq, ?_⟩⟩
      · rw [← bookedEq]
        exact lockIsolatedCollateral_eq config booked changes
      · simp only [some, ← bookedEq]
        rfl

end Portfolio

end Tickwright.Engine
