/-
# Store.Store -- the durable side, one transaction at a time

The `Store` holds what survives a crash: the saga rows with their transition
history, the account row, one row a partition, the funding watermarks and the
seq records.  Every write the engine makes is one `Txn`, and a `Txn` commits
whole or not at all, so the durable states a crash can leave are exactly those
between two transactions.

What a row drops is stated here, not left to a codec: a position row keeps no
dedup set and no entry price while flat (`Position.durable`), and the account's
identity is written once with the row (`account_identity_kept`).  The encoding
of each row into columns is `Store.Records`.
-/
import Tickwright.Domain.Venue
import Tickwright.Theory.Dict

namespace Tickwright.Store

open Tickwright.Domain Tickwright.Theory

set_option autoImplicit false
set_option linter.dupNamespace false

/-- The grain of a position row. -/
abbrev PartitionKey := Owner × Symbol

/-- One partition's key. -/
def keyOf (position : Position) : PartitionKey := (position.owner, position.symbol)

/-- `checkpoint_ledger`: the rows one ledger transaction writes. -/
structure LedgerTxn where
  account : Account
  positions : List Position := []
  order : Option Order := none
  fundingMark : Option (Symbol × Nanos) := none
  tsNs : Nanos := 0

/-- One durable write of the engine. -/
inductive Txn
  | checkpoint (order : Order) (tsNs : Nanos)
  | checkpointLedger (rows : LedgerTxn)
  | raiseSeq (strategyId : StrategyId) (seq : ℕ)

/-- What survives a crash. -/
structure Store where
  orders : Dict Cloid Order
  history : Dict Cloid (List (OrderState × Nanos))
  account : Option Account
  positions : Dict PartitionKey Position
  fundingMarks : Dict Symbol Nanos
  seqRecords : Dict StrategyId ℕ

namespace Store

/-- A database nothing has been written to. -/
def fresh : Store where
  orders := Dict.empty
  history := Dict.empty
  account := none
  positions := Dict.empty
  fundingMarks := Dict.empty
  seqRecords := Dict.empty

/-- Upsert the saga row and append its transition entry. -/
def writeOrder (store : Store) (order : Order) (tsNs : Nanos) : Store :=
  { store with
    orders := store.orders.set order.cloid order
    history := store.history.set order.cloid
      ((store.history.get order.cloid).getD [] ++ [(order.state, tsNs)]) }

/-- Upsert the account row: what it was opened as is written once, with the row. -/
def writeAccount (store : Store) (account : Account) : Store :=
  { store with
    account := match store.account with
      | none => some account
      | some stored => some { stored with cash := account.cash } }

/-- Upsert one position row. -/
def writePosition (store : Store) (position : Position) : Store :=
  { store with positions := store.positions.set (keyOf position) position.durable }

/-- Upsert one funding watermark. -/
def writeFundingMark (store : Store) (mark : Symbol × Nanos) : Store :=
  { store with fundingMarks := store.fundingMarks.set mark.1 mark.2 }

/-- Keep the higher of the stored seq and `seq`. -/
def raiseSeq (store : Store) (strategyId : StrategyId) (seq : ℕ) : Store :=
  match store.seqRecords.get strategyId with
  | none => { store with seqRecords := store.seqRecords.set strategyId seq }
  | some stored =>
      if stored < seq then { store with seqRecords := store.seqRecords.set strategyId seq }
      else store

/-- Every row of one ledger transaction. -/
def checkpointLedger (store : Store) (rows : LedgerTxn) : Store :=
  let written := match rows.order with
    | none => store
    | some order => store.writeOrder order rows.tsNs
  let written := written.writeAccount rows.account
  let written := rows.positions.foldl writePosition written
  match rows.fundingMark with
  | none => written
  | some mark => written.writeFundingMark mark

/-- Commit one transaction. -/
def commit (store : Store) : Txn → Store
  | .checkpoint order tsNs => store.writeOrder order tsNs
  | .checkpointLedger rows => store.checkpointLedger rows
  | .raiseSeq strategyId seq => store.raiseSeq strategyId seq

/-! ## What a transaction moves -/

section Frame

variable (store : Store) (order : Order) (tsNs : Nanos) (account : Account) (position : Position)
  (mark : Symbol × Nanos)

@[simp] theorem writeOrder_orders :
    (store.writeOrder order tsNs).orders = store.orders.set order.cloid order := rfl
@[simp] theorem writeOrder_account : (store.writeOrder order tsNs).account = store.account := rfl
@[simp] theorem writeOrder_positions :
    (store.writeOrder order tsNs).positions = store.positions := rfl
@[simp] theorem writeOrder_fundingMarks :
    (store.writeOrder order tsNs).fundingMarks = store.fundingMarks := rfl
@[simp] theorem writeOrder_seqRecords :
    (store.writeOrder order tsNs).seqRecords = store.seqRecords := rfl

@[simp] theorem writeAccount_orders : (store.writeAccount account).orders = store.orders := rfl
@[simp] theorem writeAccount_positions :
    (store.writeAccount account).positions = store.positions := rfl
@[simp] theorem writeAccount_fundingMarks :
    (store.writeAccount account).fundingMarks = store.fundingMarks := rfl
@[simp] theorem writeAccount_seqRecords :
    (store.writeAccount account).seqRecords = store.seqRecords := rfl

@[simp] theorem writePosition_orders :
    (store.writePosition position).orders = store.orders := rfl
@[simp] theorem writePosition_account :
    (store.writePosition position).account = store.account := rfl
@[simp] theorem writePosition_positions :
    (store.writePosition position).positions =
      store.positions.set (keyOf position) position.durable := rfl
@[simp] theorem writePosition_fundingMarks :
    (store.writePosition position).fundingMarks = store.fundingMarks := rfl
@[simp] theorem writePosition_seqRecords :
    (store.writePosition position).seqRecords = store.seqRecords := rfl

end Frame

/-- A batch of position rows moves the position table and nothing else. -/
theorem foldl_writePosition (store : Store) (positions : List Position) :
    positions.foldl writePosition store =
      { store with
        positions := store.positions.setAll
          (positions.map fun position => (keyOf position, position.durable)) } := by
  induction positions generalizing store with
  | nil => rfl
  | cons position rest ih =>
      rw [List.foldl_cons, ih]
      rfl

section Ledger

variable (store : Store) (rows : LedgerTxn)

theorem checkpointLedger_orders :
    (store.checkpointLedger rows).orders =
      rows.order.elim store.orders fun order => store.orders.set order.cloid order := by
  simp only [checkpointLedger, foldl_writePosition]
  cases rows.order <;> cases rows.fundingMark <;> rfl

theorem checkpointLedger_positions :
    (store.checkpointLedger rows).positions =
      store.positions.setAll
        (rows.positions.map fun position => (keyOf position, position.durable)) := by
  simp only [checkpointLedger, foldl_writePosition]
  cases rows.order <;> cases rows.fundingMark <;> rfl

theorem checkpointLedger_account :
    (store.checkpointLedger rows).account = (store.writeAccount rows.account).account := by
  simp only [checkpointLedger, foldl_writePosition]
  cases rows.order <;> cases rows.fundingMark <;> rfl

theorem checkpointLedger_fundingMarks :
    (store.checkpointLedger rows).fundingMarks =
      rows.fundingMark.elim store.fundingMarks fun mark => store.fundingMarks.set mark.1 mark.2 := by
  simp only [checkpointLedger, foldl_writePosition]
  cases rows.order <;> cases rows.fundingMark <;> rfl

theorem checkpointLedger_seqRecords :
    (store.checkpointLedger rows).seqRecords = store.seqRecords := by
  simp only [checkpointLedger, foldl_writePosition]
  cases rows.order <;> cases rows.fundingMark <;> rfl

end Ledger

/-- An account row that agrees on its identity takes the new cash line whole. -/
theorem writeAccount_of_identity {store : Store} {account stored : Account}
    (there : store.account = some stored) (same : account.identity = stored.identity) :
    (store.writeAccount account).account = some account := by
  simp only [writeAccount, there]
  obtain ⟨id, genesis, ts, cash⟩ := account
  obtain ⟨id', genesis', ts', cash'⟩ := stored
  simp only [Account.identity, Prod.mk.injEq] at same
  obtain ⟨rfl, rfl, rfl⟩ := same
  rfl

section RaiseSeq

variable (store : Store) (strategyId : StrategyId) (seq : ℕ)

/-- A raised seq moves the seq records and nothing else. -/
theorem raiseSeq_eq :
    ∃ seqRecords, store.raiseSeq strategyId seq = { store with seqRecords := seqRecords } := by
  simp only [raiseSeq]
  split
  · exact ⟨_, rfl⟩
  · split
    · exact ⟨_, rfl⟩
    · exact ⟨store.seqRecords, rfl⟩

theorem raiseSeq_orders : (store.raiseSeq strategyId seq).orders = store.orders := by
  obtain ⟨_, eq⟩ := store.raiseSeq_eq strategyId seq
  rw [eq]

theorem raiseSeq_account : (store.raiseSeq strategyId seq).account = store.account := by
  obtain ⟨_, eq⟩ := store.raiseSeq_eq strategyId seq
  rw [eq]

theorem raiseSeq_positions : (store.raiseSeq strategyId seq).positions = store.positions := by
  obtain ⟨_, eq⟩ := store.raiseSeq_eq strategyId seq
  rw [eq]

end RaiseSeq

/-- **What the account was opened as is written once**: no transaction changes it. -/
theorem account_identity_kept {store : Store} {stored : Account} (txn : Txn)
    (there : store.account = some stored) :
    ∃ account, (store.commit txn).account = some account ∧
      account.identity = stored.identity := by
  cases txn with
  | checkpoint order tsNs => exact ⟨stored, there, rfl⟩
  | checkpointLedger rows =>
      refine ⟨{ stored with cash := rows.account.cash }, ?_, rfl⟩
      simp only [commit, checkpointLedger_account, writeAccount, there]
  | raiseSeq strategyId seq =>
      exact ⟨stored, (store.raiseSeq_account strategyId seq).trans there, rfl⟩

/-- A seq record reads as the higher of what was there and what was raised. -/
theorem raiseSeq_get (store : Store) (strategyId other : StrategyId) (seq : ℕ) :
    ((store.raiseSeq strategyId seq).seqRecords.get other).getD 0 =
      if strategyId = other then max ((store.seqRecords.get strategyId).getD 0) seq
      else (store.seqRecords.get other).getD 0 := by
  simp only [raiseSeq]
  cases there : store.seqRecords.get strategyId with
  | none =>
      simp only [Dict.get_set]
      split
      · simp
      · rfl
  | some stored =>
      simp only [Option.getD_some]
      by_cases higher : stored < seq
      · simp only [higher, if_true, Dict.get_set]
        split
        · simp [max_eq_right higher.le]
        · rfl
      · simp only [higher, if_false]
        split
        · rename_i same
          subst same
          simp [there, max_eq_left (not_lt.mp higher)]
        · rfl

/-- No transaction drops a saga row. -/
theorem commit_orders_isSome {store : Store} {cloid : Cloid} (txn : Txn)
    (there : (store.orders.get cloid).isSome = true) :
    ((store.commit txn).orders.get cloid).isSome = true := by
  have kept : ∀ order : Order, ((store.orders.set order.cloid order).get cloid).isSome = true := by
    intro order
    rw [Dict.get_set]
    split
    · rfl
    · exact there
  cases txn with
  | checkpoint order tsNs => exact kept order
  | checkpointLedger rows =>
      simp only [commit, checkpointLedger_orders]
      cases rows.order with
      | none => exact there
      | some order => exact kept order
  | raiseSeq strategyId seq =>
      simp only [commit, raiseSeq_orders]
      exact there

end Store

end Tickwright.Store
