/-
# Engine.Checkpoint -- the one writer of both read-models

`Memory` is what a process holds: the order cache and the ledger's read-model.
Every verb of the `Checkpointer` is a list of effects in the order the source
performs them, a memory step, one durable transaction, a memory step again, so
a crash between any two of them is a prefix of the list.

* writes go store first, then memory: `checkpoint` and the ledger verbs never
  project a row they have not written;
* a fill's order row and ledger rows are one transaction (`checkpointFill`);
* `recover` rebuilds both read-models from the durable rows, the ledger first.
-/
import Tickwright.Engine.Portfolio
import Tickwright.Engine.FlattenSplit
import Tickwright.Theory.Machine

namespace Tickwright.Engine

open Tickwright.Domain Tickwright.Theory Tickwright.Store

set_option autoImplicit false

/-! ## The order cache -/

/-- The in-memory read-model of current order state. -/
structure Cache where
  orders : Dict Cloid Order := Dict.empty
  lastEventNs : Dict Cloid Nanos := Dict.empty
  seqRecords : Dict StrategyId ℕ := Dict.empty

namespace Cache

def getOrder (cache : Cache) (cloid : Cloid) : Option Order := cache.orders.get cloid

/-- Project an order, writing nothing durable. -/
def project (cache : Cache) (order : Order) (tsNs : Nanos) : Cache :=
  { cache with
    orders := cache.orders.set order.cloid order
    lastEventNs := cache.lastEventNs.set order.cloid tsNs }

/-- The saga a handler advances in place, before any write. -/
def remember (cache : Cache) (order : Order) : Cache :=
  { cache with orders := cache.orders.set order.cloid order }

/-- The memory half of `raise_seq`. -/
def raiseSeq (cache : Cache) (strategyId : StrategyId) (seq : ℕ) : Cache :=
  { cache with
    seqRecords := cache.seqRecords.set strategyId
      (max ((cache.seqRecords.get strategyId).getD 0) seq) }

/-- Every non-terminal saga, narrowed by strategy and symbol. -/
def openOrders (cache : Cache) (strategyId : Option StrategyId) (symbol : Option Symbol) :
    List Order :=
  cache.orders.values.filter fun order =>
    !order.isTerminal && (strategyId.all fun s => decide (order.strategyId = s)) &&
      (symbol.all fun s => decide (order.symbol = s))

/-- The seqs one saga consumed: its own, and its requested cancel's. -/
def consumedSeq (order : Order) : ℕ :=
  max order.signalId.seq ((order.cancelSignalId.map SignalId.seq).getD 0)

/-- Max consumed seq of one strategy, over its records and every saga. -/
def seqHighWater (cache : Cache) (strategyId : StrategyId) : ℕ :=
  ((cache.orders.values.filter fun order => order.strategyId = strategyId).map consumedSeq).foldl
    max ((cache.seqRecords.get strategyId).getD 0)

/-- Reload the projection from the durable store. -/
def rebuild (store : Store) : Cache where
  orders := store.orders.arrange (· ≤ ·)
  lastEventNs := Dict.empty
  seqRecords := store.seqRecords

end Cache

/-! ## What a process holds -/

structure Memory where
  cache : Cache
  portfolio : Portfolio

namespace Memory

def project (memory : Memory) (order : Order) (tsNs : Nanos) : Memory :=
  { memory with cache := memory.cache.project order tsNs }

def remember (memory : Memory) (order : Order) : Memory :=
  { memory with cache := memory.cache.remember order }

end Memory

/-- The order a cancel names: one of ours, or one the engine never placed. -/
inductive CancelRef
  | ours (ref : OrderRef)
  | external (symbol : Symbol) (venueOid : String)
deriving DecidableEq

/-- One step of a handler. -/
inductive Effect
  /-- Memory moves. -/
  | memory (memory : Memory)
  /-- One transaction commits. -/
  | write (txn : Txn)
  /-- A canonical event is published. -/
  | announce (event : OrderEvent)
  /-- `Exchange.place`. -/
  | place (request : PlaceOrder)
  /-- `Exchange.cancel`. -/
  | cancel (refs : List CancelRef)

/-- Why a handler raised. -/
inductive Fault
  | invariant (violation : InvariantViolation)
  | split (fault : SplitFault)
deriving DecidableEq

/-- A handler's effects in order, the fault it ends on, if it raises, and the
cloid whose send it ends waiting for, if it sends. -/
structure Script where
  effects : List Effect
  fault : Option Fault := none
  awaiting : Option Cloid := none

namespace Script

/-- The handler that does nothing. -/
def skip : Script := { effects := [] }

def fail (fault : Fault) : Script := { effects := [], fault := some fault }

end Script

/-! ## Checkpointer verbs -/

/-- Make a non-fill transition durable, then project it. -/
def checkpoint (memory : Memory) (order : Order) (tsNs : Nanos) : List Effect :=
  [.write (.checkpoint order tsNs), .memory (memory.project order tsNs)]

/-- Make a sent seq durable, then project it. -/
def raiseSeq (memory : Memory) (strategyId : StrategyId) (seq : ℕ) : List Effect :=
  [.write (.raiseSeq strategyId seq),
    .memory { memory with cache := memory.cache.raiseSeq strategyId seq }]

/-- Whether the durable ledger holds the account's row. -/
def isOpened (memory : Memory) (store : Store) : Bool :=
  memory.portfolio.opened || store.account.isSome

/-- An order's fill as the ledger books it. -/
def bookableOf (order : Order) (tradeId : String) (quantity price fee : Decimal) : BookableFill where
  eventId := .fill order.cloid tradeId
  owner := some order.strategyId
  symbol := order.symbol
  quantity := quantity
  price := price
  fee := fee

/-- One flatten fill as one piece per partition it moves. -/
def splitFill (config : Config) (basis : Basis) (order : Order) (tradeId : String)
    (quantity price cumQty fee : Decimal) : Except Fault (List (BookableFill × Side)) :=
  match config.szDecimals order.symbol with
  | none => .error (.invariant (.noInstrumentSpec order.symbol))
  | some szDecimals =>
      match flattenSplit basis ((10 : Decimal) ^ (-szDecimals)) cumQty quantity fee with
      | .error fault => .error (.split fault)
      | .ok [] => .error (.invariant (.movesNoPartition (.fill order.cloid tradeId) quantity))
      | .ok moves =>
          .ok (moves.map fun entry =>
            ({ eventId := .piece order.cloid tradeId entry.1
               owner := Owner.ofStored entry.1
               symbol := order.symbol
               quantity := |entry.2.size|
               price := price
               fee := entry.2.fee },
             if 0 < entry.2.size then .buy else .sell))

/-- The fills one order fill books: itself, or one piece per partition. -/
def piecesOf (config : Config) (order : Order) (tradeId : String)
    (quantity price cumQty fee : Decimal) : Except Fault (List (BookableFill × Side)) :=
  match order.splitBasis with
  | none => .ok [(bookableOf order tradeId quantity price fee, order.side)]
  | some basis => splitFill config basis order tradeId quantity price cumQty fee

/-- Fold pieces, commit their rows in one transaction, then project them. -/
def commitFolds (config : Config) (memory : Memory) (order : Option Order)
    (pieces : List (BookableFill × Side)) (tsNs : Nanos) : Except Fault (List Effect) :=
  match memory.portfolio.applyFills config pieces with
  | .error violation => .error (.invariant violation)
  | .ok (folded, changes) =>
      let cached := match order with
        | none => memory.cache
        | some order => memory.cache.project order tsNs
      .ok [.memory { memory with portfolio := folded },
        .write (.checkpointLedger
          { account := folded.account
            positions := changes.map fun change => change.current folded
            order := order
            tsNs := tsNs }),
        .memory { cache := cached, portfolio := changes.foldl Portfolio.project folded }]

/-- Make a fill durable across both read-models in one transaction. -/
def checkpointFill (config : Config) (memory : Memory) (store : Store) (order : Order)
    (tradeId : String) (quantity price cumQty fee : Decimal) (tsNs : Nanos) :
    Except Fault (List Effect) :=
  if !isOpened memory store then
    .error (.invariant .ledgerNotOpen)
  else
    match piecesOf config order tradeId quantity price cumQty fee with
    | .error fault => .error fault
    | .ok pieces => commitFolds config memory (some order) pieces tsNs

/-- One partition's signed move of a leftover, at `price` and with no fee. -/
def leftoverPiece (owner : Owner) (symbol : Symbol) (size price : Decimal) (tsNs : Nanos) :
    BookableFill × Side :=
  ({ eventId := .leftover symbol tsNs (Owner.stored owner)
     owner := owner
     symbol := symbol
     quantity := |size|
     price := price
     fee := 0 },
   if 0 < size then .buy else .sell)

/-- The pieces that move every strategy's size on `symbol` into the unattributed
partition. -/
def leftoverPieces (portfolio : Portfolio) (symbol : Symbol) (tsNs : Nanos) :
    List (BookableFill × Side) :=
  let held := (portfolio.across symbol).filter fun position =>
    position.owner.isSome && !position.isFlat
  let moved := (held.map Position.signedSize).sum
  let cost := (held.map Position.costBasis).sum
  let pieces := held.map fun position =>
    leftoverPiece position.owner symbol (-position.signedSize) position.entryPrice tsNs
  if moved = 0 then pieces
  else pieces ++ [leftoverPiece none symbol moved (cost / moved) tsNs]

/-- Move every strategy's size on `symbol` into the unattributed partition. -/
def checkpointLeftover (config : Config) (memory : Memory) (symbol : Symbol) (tsNs : Nanos) :
    Except Fault (List Effect) :=
  match leftoverPieces memory.portfolio symbol tsNs with
  | [] => .ok []
  | pieces => commitFolds config memory none pieces tsNs

/-- Make one reconcile cycle's heal durable. -/
def checkpointHeal (config : Config) (memory : Memory) (store : Store)
    (fills : List ReconciliationFill) (cash : Option CashCorrection)
    (snapshot : Option VenueAccountState) (tsNs : Nanos) : Except Fault (List Effect) :=
  if !isOpened memory store then
    .error (.invariant .ledgerNotOpen)
  else
    match memory.portfolio.applyHeal config fills cash snapshot with
    | .error violation => .error (.invariant violation)
    | .ok none => .ok []
    | .ok (some (folded, change)) =>
        let rows : Dict PartitionKey Position := Dict.empty.setAll
          ((change.fills.map fun fill => (fill.key, fill.current folded)) ++
            change.collateral.filterMap fun key =>
              (folded.positions.get key).map fun position => (key, position))
        .ok [.memory { memory with portfolio := folded },
          .write (.checkpointLedger
            { account := folded.account, positions := rows.values, tsNs := tsNs }),
          .memory { memory with portfolio := change.fills.foldl Portfolio.project folded }]

/-- Make one settled funding boundary durable: gate, then one transaction. -/
def checkpointFunding (memory : Memory) (store : Store) (accrual : FundingAccrual)
    (tsNs : Nanos) : Except Fault (List Effect) :=
  if !isOpened memory store then
    .error (.invariant .ledgerNotOpen)
  else
    match memory.portfolio.applyFunding (store.fundingMarks.get accrual.symbol) accrual with
    | none => .ok []
    | some (folded, change) =>
        .ok [.memory { memory with portfolio := folded },
          .write (.checkpointLedger
            { account := folded.account
              positions := change.positions.filterMap folded.positions.get
              fundingMark := some change.fundingMark
              tsNs := tsNs })]

/-! ## Recovery -/

/-- A store this engine may not trade. -/
inductive StoreAccountMismatch
  | ordersWithoutLedger
  | disagreement (stored : Account) (spec : AccountSpec)

/-- The order position rows are read in. -/
def keyLe (a b : PartitionKey) : Prop :=
  Owner.stored a.1 < Owner.stored b.1 ∨
    (Owner.stored a.1 = Owner.stored b.1 ∧ a.2 ≤ b.2)

instance : DecidableRel keyLe := fun a b => by unfold keyLe; infer_instance

/-- Refuse a store this engine may not trade. -/
def refuseDisagreement (config : Config) (store : Store) : Option StoreAccountMismatch :=
  match store.account with
  | none =>
      if config.spec.declaresGenesis && !store.orders.entries.isEmpty then
        some .ordersWithoutLedger
      else none
  | some stored =>
      if stored.accountId ≠ config.spec.accountId ∨
          (config.spec.declaresGenesis = true ∧
            some stored.genesisCollateral ≠ config.spec.genesisCollateral) then
        some (.disagreement stored config.spec)
      else none

/-- Both read-models as the rows of an open ledger restore them. -/
def rebuilt (config : Config) (store : Store) (account : Account) (tsNs : Nanos) : Memory where
  cache := Cache.rebuild store
  portfolio :=
    { Portfolio.openAt config tsNs with
      account := account
      opened := true
      positions := store.positions.arrange keyLe }

/-- Restore both read-models from the store, the ledger first, seeding paper's
genesis row where the store holds none. -/
def recover (config : Config) (store : Store) (tsNs : Nanos) :
    Except StoreAccountMismatch (Memory × List Txn) :=
  match refuseDisagreement config store with
  | some mismatch => .error mismatch
  | none =>
      let blank := Portfolio.openAt config tsNs
      match store.account with
      | none =>
          if config.spec.declaresGenesis then
            .ok (⟨Cache.rebuild store, { blank with opened := true }⟩,
              [.checkpointLedger { account := blank.account, tsNs := tsNs }])
          else
            .ok (⟨Cache.rebuild store, blank⟩, [])
      | some stored => .ok (rebuilt config store stored tsNs, [])

theorem recover_of_account {config : Config} {store : Store} {account : Account}
    (there : store.account = some account) (tradable : refuseDisagreement config store = none)
    (tsNs : Nanos) : recover config store tsNs = .ok (rebuilt config store account tsNs, []) := by
  simp only [recover, tradable, there]

end Tickwright.Engine
