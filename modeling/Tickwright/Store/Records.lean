/-
# Store.Records -- the rows as columns, and the tables they live in

What a saga, an account, a partition and a watermark look like as columns: money
as text, enumerations by their value, the dedup set and the split basis as JSON,
`NULL` where a field may be absent.  Two columns carry a meaning of their own:
the owner of the unattributed partition is a reserved name and never `NULL`, and
a flat partition's entry price is `NULL` and never zero.

* each row reads back as what was written (`restoreOrder_recordValues`,
  `restorePosition_positionValues`, `restoreAccount_accountValues`);
* a transaction on the tables is the transaction on the records
  (`of_commit`), so the tables after any writes read back as the store after the
  same writes (`of_commits`, `load_of`).

`str`, `Decimal` and `json` are a `Codec`: what they answer is not fixed, only
that each reads back what it wrote.
-/
import Tickwright.Store.Store
import Mathlib.Data.Finset.Sort
import Mathlib.Data.String.Basic

namespace Tickwright.Store

open Tickwright.Domain Tickwright.Theory

set_option autoImplicit false

/-! ## Text -/

/-- `str(d)` and `Decimal(text)`, `json.dumps` and `json.loads` on the three shapes
the rows use, and the text an id stands for. -/
structure Codec where
  str : Decimal → String
  decimal : String → Option Decimal
  dumps : List String → String
  loads : String → Option (List String)
  dumpsPairs : List (String × String) → String
  loadsPairs : String → Option (List (String × String))
  dumpsTrail : List (String × ℤ) → String
  loadsTrail : String → Option (List (String × ℤ))
  signalText : SignalId → String
  signalOf : String → Option SignalId
  eventText : EventId → String
  eventOf : String → Option EventId
  decimal_str : ∀ d, decimal (str d) = some d
  loads_dumps : ∀ names, loads (dumps names) = some names
  loads_dumpsPairs : ∀ pairs, loadsPairs (dumpsPairs pairs) = some pairs
  loads_dumpsTrail : ∀ trail, loadsTrail (dumpsTrail trail) = some trail
  signalOf_text : ∀ id, signalOf (signalText id) = some id
  eventOf_text : ∀ id, eventOf (eventText id) = some id

/-- `Side(text)`. -/
def sideOf : String → Option Side
  | "buy" => some .buy
  | "sell" => some .sell
  | _ => none

/-- `OrderType(text)`. -/
def orderTypeOf : String → Option Domain.OrderType
  | "market" => some .market
  | "limit" => some .limit
  | _ => none

/-- `TimeInForce(text)`. -/
def timeInForceOf : String → Option TimeInForce
  | "gtc" => some .gtc
  | "ioc" => some .ioc
  | _ => none

/-- `OrderState(text)`. -/
def orderStateOf : String → Option OrderState
  | "pending" => some .pending
  | "submitted" => some .submitted
  | "live" => some .live
  | "partially_filled" => some .partiallyFilled
  | "filled" => some .filled
  | "cancelled" => some .cancelled
  | "denied" => some .denied
  | "rejected" => some .rejected
  | "failed" => some .failed
  | _ => none

/-- A strategy id as read back: any name but the reserved one. -/
def strategyOf (name : String) : Option StrategyId := Owner.ofStored name

/-- A flag as a backend without booleans stores it. -/
def flag (b : Bool) : ℤ := if b then 1 else 0

/-- `bool(column)`. -/
def truth (n : ℤ) : Bool := decide (n ≠ 0)

@[simp] theorem sideOf_value (side : Side) : sideOf side.value = some side := by
  cases side <;> rfl
@[simp] theorem orderTypeOf_value (orderType : Domain.OrderType) :
    orderTypeOf orderType.value = some orderType := by
  cases orderType <;> rfl
@[simp] theorem timeInForceOf_value (timeInForce : TimeInForce) :
    timeInForceOf timeInForce.value = some timeInForce := by
  cases timeInForce <;> rfl
@[simp] theorem orderStateOf_value (state : OrderState) : orderStateOf state.value = some state := by
  cases state <;> rfl
@[simp] theorem strategyOf_id (strategyId : StrategyId) :
    strategyOf strategyId.id = some strategyId :=
  Owner.ofStored_stored (some strategyId)
@[simp] theorem truth_flag (b : Bool) : truth (flag b) = b := by
  cases b <;> rfl

/-- Read an optional column: `NULL` is absence, a value must read. -/
def optional {α β : Type} (read : α → Option β) : Option α → Option (Option β)
  | none => some none
  | some column => (read column).map some

theorem optional_map {α β : Type} {read : α → Option β} {write : β → α}
    (law : ∀ x, read (write x) = some x) (value : Option β) :
    optional read (value.map write) = some value := by
  cases value with
  | none => rfl
  | some x => simp only [Option.map_some, optional, law]

/-! ## Rows -/

/-- The saga columns recovery reads, in write order. -/
structure OrderRow where
  cloid : String
  strategyId : String
  signalId : String
  symbol : String
  side : String
  quantity : String
  orderType : String
  state : String
  cumQty : String
  venueOid : Option String
  ackedTsNs : Option ℤ
  createdTsNs : Option ℤ
  reason : Option String
  cancelRequested : ℤ
  cancelRequestedTs : Option ℤ
  cancelSignalId : Option String
  splitBasis : Option String
  price : Option String
  timeInForce : Option String
  postOnly : ℤ
  reduceOnly : ℤ
  appliedEventIds : String

structure AccountRow where
  accountId : String
  genesisCollateral : String
  genesisTsNs : ℤ
  cash : String

structure PositionRow where
  strategyId : String
  symbol : String
  signedSize : String
  entryPrice : Option String
  realizedPnl : String
  fees : String
  funding : String
  isolatedCollateral : Option String

section Rows

variable (codec : Codec)

/-- `_encode_split_basis`. -/
def encodeSplitBasis (basis : List (String × Decimal)) : String :=
  codec.dumpsPairs (basis.map fun entry => (entry.1, codec.str entry.2))

/-- `_decode_split_basis`. -/
def decodeSplitBasis (text : String) : Option (List (String × Decimal)) :=
  (codec.loadsPairs text).bind fun pairs =>
    pairs.mapM fun pair => (codec.decimal pair.2).map fun size => (pair.1, size)

/-- `json.dumps(sorted(applied_event_ids))`. -/
def encodeApplied (ids : Finset EventId) : String :=
  codec.dumps ((ids.image codec.eventText).sort (· ≤ ·))

/-- The dedup set a list of ids restores. -/
def decodeApplied (text : String) : Option (Finset EventId) :=
  (codec.loads text).bind fun names => (names.mapM codec.eventOf).map List.toFinset

/-- `record_values`. -/
def recordValues (order : Order) : OrderRow where
  cloid := order.cloid
  strategyId := order.strategyId.id
  signalId := codec.signalText order.signalId
  symbol := order.symbol
  side := order.side.value
  quantity := codec.str order.quantity
  orderType := order.orderType.value
  state := order.state.value
  cumQty := codec.str order.cumQty
  venueOid := order.venueOid
  ackedTsNs := order.ackedTsNs
  createdTsNs := order.createdTsNs
  reason := order.reason
  cancelRequested := flag order.cancelRequested
  cancelRequestedTs := order.cancelRequestedTs
  cancelSignalId := order.cancelSignalId.map codec.signalText
  splitBasis := order.splitBasis.map (encodeSplitBasis codec)
  price := order.price.map codec.str
  timeInForce := order.timeInForce.map TimeInForce.value
  postOnly := flag order.postOnly
  reduceOnly := flag order.reduceOnly
  appliedEventIds := encodeApplied codec order.appliedEventIds

/-- `restore_order`. -/
def restoreOrder (row : OrderRow) : Option Order := do
  let strategyId ← strategyOf row.strategyId
  let signalId ← codec.signalOf row.signalId
  let side ← sideOf row.side
  let quantity ← codec.decimal row.quantity
  let orderType ← orderTypeOf row.orderType
  let state ← orderStateOf row.state
  let cumQty ← codec.decimal row.cumQty
  let cancelSignalId ← optional codec.signalOf row.cancelSignalId
  let splitBasis ← optional (decodeSplitBasis codec) row.splitBasis
  let price ← optional codec.decimal row.price
  let timeInForce ← optional timeInForceOf row.timeInForce
  let appliedEventIds ← decodeApplied codec row.appliedEventIds
  some
    { cloid := row.cloid
      strategyId := strategyId
      signalId := signalId
      symbol := row.symbol
      side := side
      quantity := quantity
      orderType := orderType
      state := state
      cumQty := cumQty
      venueOid := row.venueOid
      ackedTsNs := row.ackedTsNs
      createdTsNs := row.createdTsNs
      reason := row.reason
      cancelRequested := truth row.cancelRequested
      cancelRequestedTs := row.cancelRequestedTs
      cancelSignalId := cancelSignalId
      splitBasis := splitBasis
      price := price
      timeInForce := timeInForce
      postOnly := truth row.postOnly
      reduceOnly := truth row.reduceOnly
      appliedEventIds := appliedEventIds }

/-- `account_values`. -/
def accountValues (account : Account) : AccountRow where
  accountId := account.accountId
  genesisCollateral := codec.str account.genesisCollateral
  genesisTsNs := account.genesisTsNs
  cash := codec.str account.cash

/-- `restore_account`. -/
def restoreAccount (row : AccountRow) : Option Account := do
  let genesisCollateral ← codec.decimal row.genesisCollateral
  let cash ← codec.decimal row.cash
  some
    { accountId := row.accountId
      genesisCollateral := genesisCollateral
      genesisTsNs := row.genesisTsNs
      cash := cash }

/-- `position_values`: a flat row has no entry price, and the unattributed
partition a reserved name. -/
def positionValues (position : Position) : PositionRow where
  strategyId := Owner.stored position.owner
  symbol := position.symbol
  signedSize := codec.str position.signedSize
  entryPrice := if position.isFlat then none else some (codec.str position.entryPrice)
  realizedPnl := codec.str position.realizedPnl
  fees := codec.str position.fees
  funding := codec.str position.funding
  isolatedCollateral := position.isolatedCollateral.map codec.str

/-- `restore_position`. -/
def restorePosition (row : PositionRow) : Option Position := do
  let signedSize ← codec.decimal row.signedSize
  let entryPrice ← optional codec.decimal row.entryPrice
  let realizedPnl ← codec.decimal row.realizedPnl
  let fees ← codec.decimal row.fees
  let funding ← codec.decimal row.funding
  let isolatedCollateral ← optional codec.decimal row.isolatedCollateral
  some
    { owner := Owner.ofStored row.strategyId
      symbol := row.symbol
      signedSize := signedSize
      entryPrice := entryPrice.getD 0
      realizedPnl := realizedPnl
      fees := fees
      funding := funding
      isolatedCollateral := isolatedCollateral }

/-- `next_history`: the trail with one more checkpoint. -/
def nextHistory (existing : Option String) (state : OrderState) (tsNs : Nanos) : String :=
  codec.dumpsTrail ((existing.bind codec.loadsTrail).getD [] ++ [(state.value, tsNs)])

/-! ## What was written reads back -/

theorem decodeSplitBasis_encode (basis : List (String × Decimal)) :
    decodeSplitBasis codec (encodeSplitBasis codec basis) = some basis := by
  rw [decodeSplitBasis, encodeSplitBasis, codec.loads_dumpsPairs, Option.bind_some]
  induction basis with
  | nil => rfl
  | cons entry rest ih =>
      rw [List.map_cons, List.mapM_cons, ih]
      simp only [codec.decimal_str, Option.map_some]
      rfl

/-- Texts of ids, in whatever order, read back as ids. -/
theorem mapM_eventOf (names : List String) (ids : Finset EventId)
    (texts : ∀ name ∈ names, ∃ id ∈ ids, codec.eventText id = name) :
    ∃ read, names.mapM codec.eventOf = some read ∧ read.map codec.eventText = names ∧
      ∀ id ∈ read, id ∈ ids := by
  induction names with
  | nil => exact ⟨[], rfl, rfl, nofun⟩
  | cons name rest ih =>
      obtain ⟨id, member, rfl⟩ := texts name List.mem_cons_self
      obtain ⟨read, whole, same, members⟩ := ih fun n there => texts n (List.mem_cons_of_mem _ there)
      refine ⟨id :: read, ?_, ?_, ?_⟩
      · rw [List.mapM_cons, codec.eventOf_text, whole]
        rfl
      · rw [List.map_cons, same]
      · intro other there
        rcases List.mem_cons.mp there with rfl | there
        · exact member
        · exact members other there

/-- The dedup set survives the sorted list it is stored as. -/
theorem decodeApplied_encode (ids : Finset EventId) :
    decodeApplied codec (encodeApplied codec ids) = some ids := by
  have sorted : ∀ name, name ∈ (ids.image codec.eventText).sort (· ≤ ·) ↔
      ∃ id ∈ ids, codec.eventText id = name := by
    intro name
    rw [Finset.mem_sort, Finset.mem_image]
  obtain ⟨read, whole, same, members⟩ := mapM_eventOf codec _ ids fun name there =>
    (sorted name).mp there
  simp only [decodeApplied, encodeApplied, codec.loads_dumps, Option.bind_some, whole, Option.map_some]
  congr 1
  ext id
  rw [List.mem_toFinset]
  constructor
  · exact members id
  · intro there
    have named : codec.eventText id ∈ read.map codec.eventText := by
      rw [same, sorted]
      exact ⟨id, there, rfl⟩
    obtain ⟨other, found, alike⟩ := List.mem_map.mp named
    have eq := congrArg codec.eventOf alike
    rw [codec.eventOf_text, codec.eventOf_text] at eq
    cases eq
    exact found

/-- **A saga row reads back as its saga**, every field of it. -/
theorem restoreOrder_recordValues (order : Order) :
    restoreOrder codec (recordValues codec order) = some order := by
  simp only [restoreOrder, recordValues, strategyOf_id, codec.signalOf_text, sideOf_value,
    codec.decimal_str, orderTypeOf_value, orderStateOf_value,
    optional_map codec.signalOf_text, optional_map (decodeSplitBasis_encode codec),
    optional_map codec.decimal_str, optional_map timeInForceOf_value, decodeApplied_encode,
    truth_flag, Option.bind_eq_bind, Option.bind_some]

theorem restoreAccount_accountValues (account : Account) :
    restoreAccount codec (accountValues codec account) = some account := by
  simp only [restoreAccount, accountValues, codec.decimal_str, Option.bind_eq_bind,
    Option.bind_some]

/-- **A position row reads back as what it keeps of its partition.** -/
theorem restorePosition_positionValues (position : Position) :
    restorePosition codec (positionValues codec position) = some position.durable := by
  have entry : optional codec.decimal
      (if position.isFlat then none else some (codec.str position.entryPrice)) =
        some (if position.isFlat then none else some position.entryPrice) := by
    split
    · rfl
    · simp only [optional, codec.decimal_str, Option.map_some]
  simp only [restorePosition, positionValues, codec.decimal_str, entry,
    optional_map codec.decimal_str, Owner.ofStored_stored, Option.bind_eq_bind, Option.bind_some,
    Position.durable]
  congr 2
  split <;> rfl

end Rows

/-! ## Tables -/

/-- The tables of one database. -/
structure Tables where
  orders : Dict Cloid OrderRow
  /-- The audit column of `orders`, which recovery does not read. -/
  history : Dict Cloid String
  account : Option AccountRow
  positions : Dict (String × Symbol) PositionRow
  fundingMarks : Dict Symbol Nanos
  seqRecords : Dict String ℕ

namespace Tables

variable (codec : Codec)

/-- A database nothing has been written to. -/
def fresh : Tables where
  orders := Dict.empty
  history := Dict.empty
  account := none
  positions := Dict.empty
  fundingMarks := Dict.empty
  seqRecords := Dict.empty

/-- `_write_order`. -/
def writeOrder (tables : Tables) (order : Order) (tsNs : Nanos) : Tables :=
  { tables with
    orders := tables.orders.set order.cloid (recordValues codec order)
    history := tables.history.set order.cloid
      (nextHistory codec (tables.history.get order.cloid) order.state tsNs) }

/-- The account upsert: a collision moves the cash line only. -/
def upsertAccount (tables : Tables) (account : Account) : Tables :=
  let excluded := accountValues codec account
  { tables with
    account := match tables.account with
      | none => some excluded
      | some row => some { row with cash := excluded.cash } }

/-- The position upsert, on `(strategy_id, symbol)`. -/
def upsertPosition (tables : Tables) (position : Position) : Tables :=
  let excluded := positionValues codec position
  { tables with
    positions := tables.positions.set (excluded.strategyId, excluded.symbol) excluded }

/-- `raise_seq`: a lower seq moves nothing. -/
def raiseSeq (tables : Tables) (strategyId : String) (seq : ℕ) : Tables :=
  match tables.seqRecords.get strategyId with
  | none => { tables with seqRecords := tables.seqRecords.set strategyId seq }
  | some stored =>
      if stored < seq then { tables with seqRecords := tables.seqRecords.set strategyId seq }
      else tables

/-- `checkpoint_ledger`. -/
def checkpointLedger (tables : Tables) (rows : LedgerTxn) : Tables :=
  let written := match rows.order with
    | none => tables
    | some order => tables.writeOrder codec order rows.tsNs
  let written := written.upsertAccount codec rows.account
  let written := rows.positions.foldl (upsertPosition codec) written
  match rows.fundingMark with
  | none => written
  | some mark => { written with fundingMarks := written.fundingMarks.set mark.1 mark.2 }

/-- Commit one transaction. -/
def commit (tables : Tables) : Txn → Tables
  | .checkpoint order tsNs => tables.writeOrder codec order tsNs
  | .checkpointLedger rows => tables.checkpointLedger codec rows
  | .raiseSeq strategyId seq => tables.raiseSeq strategyId.id seq

/-- `all_orders`, `load_account`, `all_positions`, `funding_mark`, `seq_records`
and `history`: every row restored. -/
def load (tables : Tables) : Option Store := do
  let orders ← tables.orders.decode some (restoreOrder codec)
  let history ← tables.history.decode some fun text =>
    (codec.loadsTrail text).bind fun trail =>
      trail.mapM fun entry => (orderStateOf entry.1).map fun state => (state, entry.2)
  let account ← optional (restoreAccount codec) tables.account
  let positions ← tables.positions.decode (fun key => some (Owner.ofStored key.1, key.2))
    (restorePosition codec)
  let seqRecords ← tables.seqRecords.decode strategyOf some
  some
    { orders := orders
      history := history
      account := account
      positions := positions
      fundingMarks := tables.fundingMarks
      seqRecords := seqRecords }

/-- The primary key of a partition's row. -/
def keyText (key : PartitionKey) : String × Symbol := (Owner.stored key.1, key.2)

theorem keyText_injective : Function.Injective keyText := by
  rintro ⟨owner, symbol⟩ ⟨owner', symbol'⟩ same
  simp only [keyText, Prod.mk.injEq] at same
  rw [Owner.stored_injective same.1, same.2]

theorem id_injective : Function.Injective StrategyId.id := by
  rintro ⟨name, _⟩ ⟨name', _⟩ same
  cases same
  rfl

/-- A trail as its column holds it. -/
def trailText (trail : List (OrderState × Nanos)) : String :=
  codec.dumpsTrail (trail.map fun entry => (entry.1.value, entry.2))

/-- The tables that hold exactly a store's records. -/
def of (store : Store) : Tables where
  orders := store.orders.map (recordValues codec)
  history := store.history.map (trailText codec)
  account := store.account.map (accountValues codec)
  positions := store.positions.encode keyText keyText_injective (positionValues codec)
  fundingMarks := store.fundingMarks
  seqRecords := store.seqRecords.encode StrategyId.id id_injective id

/-! ## A transaction on the tables is the transaction on the records -/

variable {codec}

theorem nextHistory_trail (trail : Option (List (OrderState × Nanos))) (state : OrderState)
    (tsNs : Nanos) :
    nextHistory codec (trail.map (trailText codec)) state tsNs =
      trailText codec (trail.getD [] ++ [(state, tsNs)]) := by
  cases trail with
  | none => rfl
  | some entries =>
      simp only [nextHistory, trailText, Option.map_some, Option.bind_some, codec.loads_dumpsTrail,
        Option.getD_some, List.map_append, List.map_cons, List.map_nil]

theorem of_writeOrder (store : Store) (order : Order) (tsNs : Nanos) :
    of codec (store.writeOrder order tsNs) = (of codec store).writeOrder codec order tsNs := by
  simp only [of, writeOrder, Store.writeOrder, Dict.map_set, Dict.get_map, nextHistory_trail]

theorem of_writeAccount (store : Store) (account : Account) :
    of codec (store.writeAccount account) = (of codec store).upsertAccount codec account := by
  simp only [of, upsertAccount, Store.writeAccount]
  cases store.account <;> rfl

/-- A record's row is the row of what it keeps. -/
theorem positionValues_durable (position : Position) :
    positionValues codec position.durable = positionValues codec position := by
  simp only [positionValues, Position.durable, Position.isFlat]
  by_cases flat : position.signedSize = 0
  · simp [flat]
  · simp [flat]

theorem of_writePosition (store : Store) (position : Position) :
    of codec (store.writePosition position) = (of codec store).upsertPosition codec position := by
  simp only [of, upsertPosition, Store.writePosition, Dict.encode_set, positionValues_durable]
  rfl

theorem of_writePositions (store : Store) (positions : List Position) :
    of codec (positions.foldl Store.writePosition store) =
      positions.foldl (upsertPosition codec) (of codec store) := by
  induction positions generalizing store with
  | nil => rfl
  | cons position rest ih => rw [List.foldl_cons, List.foldl_cons, ih, of_writePosition]

theorem of_raiseSeq (store : Store) (strategyId : StrategyId) (seq : ℕ) :
    of codec (store.raiseSeq strategyId seq) = (of codec store).raiseSeq strategyId.id seq := by
  have there : (of codec store).seqRecords.get strategyId.id = store.seqRecords.get strategyId := by
    rw [of, Dict.get_encode, Option.map_id]
    rfl
  simp only [raiseSeq, there, Store.raiseSeq]
  cases store.seqRecords.get strategyId with
  | none => simp only [of, Dict.encode_set, id]
  | some stored =>
      by_cases higher : stored < seq
      · simp only [higher, if_true, of, Dict.encode_set, id]
      · simp only [higher, if_false]

/-- **One transaction on the tables is that transaction on the records.** -/
theorem of_commit (store : Store) (txn : Txn) :
    of codec (store.commit txn) = (of codec store).commit codec txn := by
  cases txn with
  | checkpoint order tsNs => exact of_writeOrder store order tsNs
  | raiseSeq strategyId seq => exact of_raiseSeq store strategyId seq
  | checkpointLedger rows =>
      obtain ⟨account, positions, order, fundingMark, tsNs⟩ := rows
      simp only [commit, Store.commit, checkpointLedger, Store.checkpointLedger]
      cases order <;> cases fundingMark <;>
        simp only [← of_writeOrder, ← of_writeAccount, ← of_writePositions] <;> rfl

/-- So are any number of them, in order. -/
theorem of_commits (store : Store) (txns : List Txn) :
    of codec (txns.foldl Store.commit store) = txns.foldl (commit codec) (of codec store) := by
  induction txns generalizing store with
  | nil => rfl
  | cons txn rest ih => rw [List.foldl_cons, List.foldl_cons, ih, of_commit]

/-- A trail reads back. -/
theorem load_trail (trail : List (OrderState × Nanos)) :
    ((codec.loadsTrail (trailText codec trail)).bind fun entries =>
      entries.mapM fun entry => (orderStateOf entry.1).map fun state => (state, entry.2)) =
        some trail := by
  rw [trailText, codec.loads_dumpsTrail, Option.bind_some]
  induction trail with
  | nil => rfl
  | cons entry rest ih =>
      rw [List.map_cons, List.mapM_cons, ih]
      simp only [orderStateOf_value, Option.map_some]
      rfl

/-- **The tables of a store load as that store**, when each position row holds
what a row keeps. -/
theorem load_of (store : Store)
    (durable : ∀ k position, store.positions.get k = some position →
      position.durable = position) : (of codec store).load codec = some store := by
  have orders : (of codec store).orders.decode some (restoreOrder codec) = some store.orders :=
    Dict.decode_encode Function.injective_id store.orders (fun _ => rfl)
      fun _ order _ => restoreOrder_recordValues codec order
  have history : (of codec store).history.decode some (fun text =>
      (codec.loadsTrail text).bind fun trail =>
        trail.mapM fun entry => (orderStateOf entry.1).map fun state => (state, entry.2)) =
      some store.history :=
    Dict.decode_encode Function.injective_id store.history (fun _ => rfl)
      fun _ trail _ => load_trail trail
  have account : optional (restoreAccount codec) (of codec store).account = some store.account :=
    optional_map (restoreAccount_accountValues codec) store.account
  have positions : (of codec store).positions.decode
      (fun key => some (Owner.ofStored key.1, key.2)) (restorePosition codec) =
      some store.positions := by
    apply Dict.decode_encode keyText_injective
    · intro key
      simp only [keyText, Owner.ofStored_stored]
    · intro key position there
      rw [restorePosition_positionValues, durable key position there]
  have seqRecords : (of codec store).seqRecords.decode strategyOf some =
      some store.seqRecords := by
    apply Dict.decode_encode id_injective
    · exact strategyOf_id
    · intro _ _ _
      rfl
  simp only [load, orders, history, account, positions, seqRecords, Option.bind_eq_bind,
    Option.bind_some]
  rfl

end Tables

end Tickwright.Store
