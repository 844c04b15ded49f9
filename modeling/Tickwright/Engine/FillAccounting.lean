/-
# Engine.FillAccounting -- every fill is booked exactly once, across crashes

Two aggregates deduplicate a fill with two different sets: the order's, which is
durable, and the partition's, which dies with the process.  What makes them
agree is one transaction: a fill's order row and its ledger rows commit
together, so a fill id is on a durable order exactly when its size, fee and
realized leg are on the ledger.

`Accounted trades` is that statement about rows: each partition's durable size
and fees are the sums over the fill ids of the durable orders, and the cash line
is genesis plus realized less fees.  `Recorded` adds what memory must keep for
the next fill to preserve it: a partition's process-lifetime set names only
fills the durable orders name.  A restart forgets that set and keeps the
property.

* a handler that books no fill is `Quiet` along its script, so every prefix of it
  keeps the rows accounted (`quiet_recorded`);
* a fill is new to the order if and only if it is new to the partition, so it
  books on both or on neither (`onFill_recorded`);
* `run_accounted` carries both over every run, with crashes anywhere.
-/
import Tickwright.Engine.Lineage
import Mathlib.Algebra.BigOperators.Group.Finset.Basic
import Mathlib.Tactic.Ring

namespace Tickwright.Engine

open Tickwright.Domain Tickwright.Theory Tickwright.Store

set_option autoImplicit false

/-! ## What the rows say -/

/-- What the venue reports of one trade, however often it reports it. -/
structure Trade where
  quantity : Decimal
  fee : Decimal

/-- The venue's trades, by cloid and trade id. -/
abbrev Trades := Cloid → String → Trade

/-- The fill ids of a dedup set. -/
def isFill : EventId → Bool
  | .fill _ _ => true
  | _ => false

/-- The fill ids an order has applied. -/
def fillIds (order : Order) : Finset EventId := order.appliedEventIds.filter fun id => isFill id

/-- The signed size one fill id moves on this order's side. -/
def sizeOfId (trades : Trades) (side : Side) : EventId → Decimal
  | .fill cloid tradeId => side.sign * (trades cloid tradeId).quantity
  | _ => 0

/-- The fee of one fill id. -/
def feeOfId (trades : Trades) : EventId → Decimal
  | .fill cloid tradeId => (trades cloid tradeId).fee
  | _ => 0

/-- The partition an order's own fills belong to. -/
def partitionOf (order : Order) : PartitionKey := (some order.strategyId, order.symbol)

/-- The signed size an order's applied fills put on a partition. -/
def filledSize (trades : Trades) (key : PartitionKey) (order : Order) : Decimal :=
  if partitionOf order = key then ∑ id ∈ fillIds order, sizeOfId trades order.side id else 0

/-- The fees an order's applied fills put on a partition. -/
def filledFees (trades : Trades) (key : PartitionKey) (order : Order) : Decimal :=
  if partitionOf order = key then ∑ id ∈ fillIds order, feeOfId trades id else 0

/-- A partition's durable signed size, zero where there is no row. -/
def durableSize (store : Store) (key : PartitionKey) : Decimal :=
  ((store.positions.get key).map Position.signedSize).getD 0

/-- A partition's durable fees, zero where there is no row. -/
def durableFees (store : Store) (key : PartitionKey) : Decimal :=
  ((store.positions.get key).map Position.fees).getD 0

/-- **The ledger rows are exactly the fills of the order rows.** -/
structure Accounted (trades : Trades) (store : Store) : Prop where
  /-- A fill id on an order row is that order's own, so no id is on two rows. -/
  ownFills : ∀ c order, store.orders.get c = some order →
    ∀ cloid tradeId, EventId.fill cloid tradeId ∈ order.appliedEventIds → cloid = c
  sizes : ∀ key, durableSize store key = store.orders.sum (filledSize trades key)
  fees : ∀ key, durableFees store key = store.orders.sum (filledFees trades key)
  cash : ∃ account, store.account = some account ∧
    account.cash = account.genesisCollateral + store.positions.sum Position.realizedPnl -
      store.positions.sum Position.fees

/-- Only strategies place, and what a fill report says of a trade is what the
venue's trade was.  No heal, no leftover move and no funding is in the run. -/
def Input.Plain (trades : Trades) : Input → Prop
  | .place _ signal _ => signal.strategyId ≠ operator
  | .report (.fill fact) =>
      fact.quantity = (trades fact.cloid fact.tradeId).quantity ∧
        fact.fee = (trades fact.cloid fact.tradeId).fee
  | .report _ | .cancel _ | .cancelAll _ | .operatorCancel _ | .emit _ _ => True
  | .funding _ | .heal _ _ _ | .leftover _ => False

/-- Only plain inputs are handled, to their end or to a crash. -/
def Label.Plain (trades : Trades) : Label → Prop
  | .handle input _ | .crashIn input _ _ _ => input.Plain trades
  | .sent _ | .crash _ => True

/-! ## Orders that book alike -/

/-- Both put the same fills on the same partition. -/
structure BooksAlike (row order : Order) : Prop where
  cloid : order.cloid = row.cloid
  partition : partitionOf order = partitionOf row
  side : order.side = row.side
  splitBasis : order.splitBasis = row.splitBasis
  fills : fillIds order = fillIds row

theorem BooksAlike.refl (order : Order) : BooksAlike order order := ⟨rfl, rfl, rfl, rfl, rfl⟩

theorem BooksAlike.symm {row order : Order} (alike : BooksAlike row order) :
    BooksAlike order row :=
  ⟨alike.cloid.symm, alike.partition.symm, alike.side.symm, alike.splitBasis.symm,
    alike.fills.symm⟩

theorem BooksAlike.trans {a b c : Order} (first : BooksAlike a b) (second : BooksAlike b c) :
    BooksAlike a c :=
  ⟨second.cloid.trans first.cloid, second.partition.trans first.partition,
    second.side.trans first.side, second.splitBasis.trans first.splitBasis,
    second.fills.trans first.fills⟩

theorem BooksAlike.filledSize_eq {row order : Order} (alike : BooksAlike row order)
    (trades : Trades) (key : PartitionKey) :
    filledSize trades key order = filledSize trades key row := by
  simp only [filledSize, alike.partition, alike.side, alike.fills]

theorem BooksAlike.filledFees_eq {row order : Order} (alike : BooksAlike row order)
    (trades : Trades) (key : PartitionKey) :
    filledFees trades key order = filledFees trades key row := by
  simp only [filledFees, alike.partition, alike.fills]

theorem mem_fillIds {order : Order} {cloid : Cloid} {tradeId : String} :
    EventId.fill cloid tradeId ∈ fillIds order ↔
      EventId.fill cloid tradeId ∈ order.appliedEventIds := by
  simp only [fillIds, Finset.mem_filter]
  exact ⟨fun h => h.1, fun h => ⟨h, rfl⟩⟩

/-- A saga that only took a cancel marker books alike. -/
theorem sameSaga_booksAlike {order marked : Order} (same : Order.SameSaga order marked) :
    BooksAlike order marked := by
  have terms := same.terms
  simp only [Prod.mk.injEq] at terms
  refine ⟨same.cloid, ?_, terms.2.2.2.1, terms.2.2.2.2.2.1, ?_⟩
  · simp only [partitionOf, terms.1, terms.2.2.1]
  · simp only [fillIds, same.appliedEventIds]

/-- A status books nothing. -/
theorem enter_state_booksAlike {order : Order} {event : OrderEvent} {cloid : Cloid}
    {state : OrderState} (id : event.eventId = .state cloid state) :
    BooksAlike order (order.enter event) := by
  refine ⟨rfl, rfl, rfl, rfl, ?_⟩
  simp only [fillIds, Order.enter_appliedEventIds, id, Finset.filter_insert, isFill]
  rfl

/-! ## Quiet steps -/

/-- Every handler but a fill's leaves a saga booking alike. -/
theorem booksAlike_succession : Succession BooksAlike where
  refl := BooksAlike.refl
  trans := BooksAlike.trans
  marked := sameSaga_booksAlike
  entered named _ _ := by
    obtain ⟨_, named⟩ := named
    exact enter_state_booksAlike named

/-- A saga no row knows yet, with nothing booked. -/
structure Blank (order : Order) : Prop where
  fills : fillIds order = ∅
  splitBasis : order.splitBasis = none

/-- A fill some durable order has applied. -/
def Booked (store : Store) (id : EventId) : Prop :=
  ∃ c tradeId order, id = .fill c tradeId ∧ store.orders.get c = some order ∧
    id ∈ order.appliedEventIds

/-- The rows are accounted, no order is a flatten order, every cached saga books
like its row, and a partition's own set names only booked fills. -/
structure Recorded (trades : Trades) (process : Process) : Prop where
  accounted : Accounted trades process.store
  unsplit : ∀ c order, process.store.orders.get c = some order → order.splitBasis = none
  alike : Linked BooksAlike process.memory.cache process.store
  ids : ∀ key position, process.memory.portfolio.positions.get key = some position →
    ∀ id ∈ position.appliedEventIds, Booked process.store id

variable {trades : Trades}

/-- A row written alike, or opened blank, leaves every sum over the rows alone. -/
theorem sum_set_alike {orders : Dict Cloid Order} {order : Order} (f : Order → Decimal)
    (same : ∀ row, orders.get order.cloid = some row → f order = f row)
    (blank : orders.get order.cloid = none → f order = 0) :
    (orders.set order.cloid order).sum f = orders.sum f := by
  rw [Dict.sum_set]
  cases there : orders.get order.cloid with
  | none => rw [blank there, Option.elim_none]; ring
  | some row => rw [same row there, Option.elim_some]; ring

/-- **A quiet step keeps the rows accounted.** -/
theorem quiet_recorded {process : Process} {effect : Effect}
    (quiet : Quiet BooksAlike Blank (fun _ _ => True) process effect)
    (recorded : Recorded trades process) : Recorded trades (perform process effect) := by
  cases effect with
  | memory memory =>
      refine ⟨recorded.accounted, recorded.unsplit, quiet.2, ?_⟩
      intro key position there
      simp only [perform, quiet.1] at there
      exact recorded.ids key position there
  | write txn =>
      cases txn with
      | checkpoint order tsNs =>
          have same := quiet.row
          have blank := quiet.opens
          -- The ids on the row at `order.cloid` are the same after the write.
          have fills : ∀ c row, (process.store.orders.set order.cloid order).get c = some row →
              (process.store.orders.get c = some row) ∨
              (c = order.cloid ∧ row = order) := by
            intro c row there
            rw [Dict.get_set] at there
            split at there
            · rename_i here
              cases there
              exact Or.inr ⟨here.symm, rfl⟩
            · exact Or.inl there
          have keeps : ∀ id, Booked process.store id →
              Booked (process.store.writeOrder order tsNs) id := by
            rintro id ⟨c, tradeId, row, rfl, there, applied⟩
            by_cases here : order.cloid = c
            · subst here
              refine ⟨_, _, order, rfl, Dict.get_set_self _ _ _, ?_⟩
              rw [← mem_fillIds, (same row there).fills, mem_fillIds]
              exact applied
            · exact ⟨c, tradeId, row, rfl, (Dict.get_set_ne _ _ here).trans there, applied⟩
          refine ⟨⟨?_, ?_, ?_, recorded.accounted.cash⟩, ?_, ?_, ?_⟩
          · intro c row there cloid tradeId applied
            rcases fills c row there with there | ⟨rfl, rfl⟩
            · exact recorded.accounted.ownFills c row there cloid tradeId applied
            · cases before : process.store.orders.get row.cloid with
              | none =>
                  rw [← mem_fillIds, (blank before).fills] at applied
                  exact absurd applied (Finset.notMem_empty _)
              | some old =>
                  rw [← mem_fillIds, (same old before).fills, mem_fillIds] at applied
                  exact recorded.accounted.ownFills _ old before cloid tradeId applied
          · intro key
            refine (recorded.accounted.sizes key).trans (Eq.symm ?_)
            apply sum_set_alike
            · exact fun row there => (same row there).filledSize_eq trades key
            · intro absent
              simp only [filledSize, (blank absent).fills, Finset.sum_empty, ite_self]
          · intro key
            refine (recorded.accounted.fees key).trans (Eq.symm ?_)
            apply sum_set_alike
            · exact fun row there => (same row there).filledFees_eq trades key
            · intro absent
              simp only [filledFees, (blank absent).fills, Finset.sum_empty, ite_self]
          · intro c row there
            rcases fills c row there with there | ⟨rfl, rfl⟩
            · exact recorded.unsplit c row there
            · cases before : process.store.orders.get row.cloid with
              | none => exact (blank before).splitBasis
              | some old =>
                  rw [(same old before).splitBasis]
                  exact recorded.unsplit _ old before
          · intro c cached row held there
            rcases fills c row there with there | ⟨rfl, rfl⟩
            · exact recorded.alike c cached row held there
            · exact quiet.held cached held
          · intro key position there id applied
            exact keeps id (recorded.ids key position there id applied)
      | raiseSeq strategyId seq =>
          have rows := process.store.raiseSeq_orders strategyId seq
          have ledger := process.store.raiseSeq_positions strategyId seq
          have account := process.store.raiseSeq_account strategyId seq
          constructor
          · constructor
            · simp only [perform, Store.commit, rows]; exact recorded.accounted.ownFills
            · simp only [perform, Store.commit, durableSize, rows, ledger]
              exact recorded.accounted.sizes
            · simp only [perform, Store.commit, durableFees, rows, ledger]
              exact recorded.accounted.fees
            · simp only [perform, Store.commit, ledger, account]; exact recorded.accounted.cash
          · simp only [perform, Store.commit, rows]; exact recorded.unsplit
          · simp only [perform, Store.commit, Linked, rows]; exact recorded.alike
          · simp only [perform, Store.commit, Booked, rows]; exact recorded.ids
      | checkpointLedger rows => exact quiet.elim
  | announce _ | place _ | cancel _ =>
      exact ⟨recorded.accounted, recorded.unsplit, recorded.alike, recorded.ids⟩

/-! ## Rows a placement opens -/

section Opening

variable {deriveCloid : SignalId → Cloid} {nowNs : Nanos} {signal : PlaceSignal}

theorem blank_denied (cloid : Cloid) (reason : String) :
    Blank ((orderFor cloid signal signal.quantity nowNs).enter
      (sagaEvent (orderFor cloid signal signal.quantity nowNs) (.denied reason) nowNs none
        false)) :=
  ⟨(enter_state_booksAlike rfl).fills, rfl⟩

/-- A strategy's own order is no flatten order. -/
theorem blank_approved (strategy : signal.strategyId ≠ operator) {gates : Gates}
    {portfolio : Portfolio} {verdict : GuardDecision} (cloid : Cloid) {quantity : Decimal}
    {price : Option Decimal} {basis : Option Basis}
    (approved : placeDecision gates portfolio signal verdict = (.approved quantity price, basis)) :
    Blank (approvedOrder cloid signal quantity price basis nowNs) := by
  have notFlatten : signal.isFlatten = false := by
    simp only [PlaceSignal.isFlatten, strategy, decide_false, Bool.false_and]
  have noBasis : basis = none := by
    simp only [placeDecision, notFlatten] at approved
    split at approved
    · cases approved
    · cases approved; rfl
  subst noBasis
  exact ⟨rfl, rfl⟩

end Opening

/-! ## The handler that books a fill -/

section Fill

variable {config : Config} {process : Process} {nowNs : Nanos}

/-- The rows alone: accounted, and no order is a flatten order. -/
structure RowsRecorded (trades : Trades) (store : Store) : Prop where
  accounted : Accounted trades store
  unsplit : ∀ c order, store.orders.get c = some order → order.splitBasis = none

theorem Recorded.rows (recorded : Recorded trades process) : RowsRecorded trades process.store :=
  ⟨recorded.accounted, recorded.unsplit⟩

/-- A single fill's fold is one change, and its row is that change's record. -/
theorem applyFills_single {portfolio folded : Portfolio} {fill : BookableFill} {side : Side}
    {changes : List LedgerChange}
    (applied : portfolio.applyFills config [(fill, side)] = .ok (folded, changes)) :
    ∃ change, changes = [change] ∧ portfolio.applyFill config fill side = .ok (folded, change) := by
  simp only [Portfolio.applyFills] at applied
  cases first : portfolio.applyFill config fill side with
  | error violation => rw [first] at applied; cases applied
  | ok pair =>
      obtain ⟨middle, change⟩ := pair
      rw [first] at applied
      cases applied
      exact ⟨change, rfl, rfl⟩

/-- A change's row is its record: the fold put it there, or it is not filed yet. -/
theorem current_of_applyFill {portfolio folded : Portfolio} {fill : BookableFill} {side : Side}
    {change : LedgerChange} (filed : Filed portfolio.positions)
    (applied : portfolio.applyFill config fill side = .ok (folded, change)) :
    change.current folded = change.position := by
  obtain ⟨_, _, _, positions, _⟩ := Portfolio.applyFill_cases applied
  have key := (applyFill_settled filed applied).1
  simp only [LedgerChange.current]
  split
  · rename_i isFiled
    rw [positions, if_pos isFiled, key, Dict.get_set_self, Option.getD_some]
  · rfl

/-- The sums of a fill's own order move by that fill. -/
theorem filled_enter {order : Order} {event : OrderEvent} {cloid : Cloid} {tradeId : String}
    (named : event.eventId = .fill cloid tradeId)
    (fresh : EventId.fill cloid tradeId ∉ order.appliedEventIds) (key : PartitionKey) :
    filledSize trades key (order.enter event) = filledSize trades key order +
        (if partitionOf order = key then order.side.sign * (trades cloid tradeId).quantity else 0) ∧
      filledFees trades key (order.enter event) = filledFees trades key order +
        (if partitionOf order = key then (trades cloid tradeId).fee else 0) := by
  have ids : fillIds (order.enter event) = insert (.fill cloid tradeId) (fillIds order) := by
    rw [fillIds, Order.enter_appliedEventIds, named, Finset.filter_insert]
    rfl
  have absent : EventId.fill cloid tradeId ∉ fillIds order := fun h => fresh (mem_fillIds.mp h)
  have partition : partitionOf (order.enter event) = partitionOf order := rfl
  simp only [filledSize, filledFees, partition, ids, Order.enter_side]
  by_cases here : partitionOf order = key
  · simp only [here, if_true, Finset.sum_insert absent, sizeOfId, feeOfId]
    constructor <;> ring
  · simp only [here, if_false, add_zero, and_self]

/-- What a row says of a partition is what the record held says. -/
theorem durable_of_partition {portfolio : Portfolio} {store : Store}
    (sync : LedgerSync config portfolio store) (key : PartitionKey) (f : Position → Decimal)
    (durable : ∀ position, f position.durable = f position)
    (blank : f { owner := key.1, symbol := key.2 } = 0) :
    ((store.positions.get key).map f).getD 0 = f (portfolio.partition key) := by
  have row := sync.positions key
  rw [Dict.get_map] at row
  rw [← row, Portfolio.partition]
  cases portfolio.positions.get key with
  | none => exact blank.symm
  | some position => exact durable position

/-- One row written moves a sum over the rows by what the partition moved. -/
theorem sum_ledger_row {portfolio : Portfolio} {store : Store}
    (sync : LedgerSync config portfolio store) (key : PartitionKey) (position : Position)
    (f : Position → Decimal) (durable : ∀ position, f position.durable = f position)
    (blank : f { owner := key.1, symbol := key.2 } = 0) :
    (store.positions.set key position.durable).sum f =
      store.positions.sum f + (f position - f (portfolio.partition key)) := by
  rw [Dict.sum_set, ← durable_of_partition sync key f durable blank, durable]
  cases store.positions.get key with
  | none => simp only [Option.elim_none, Option.map_none, Option.getD_none]; ring
  | some row => simp only [Option.elim_some, Option.map_some, Option.getD_some]; ring

/-- A change projected is its record filed, whichever of the two filed it. -/
theorem project_positions {portfolio folded : Portfolio} {fill : BookableFill} {side : Side}
    {change : LedgerChange} (filed : Filed portfolio.positions)
    (applied : portfolio.applyFill config fill side = .ok (folded, change)) :
    (folded.project change).positions = portfolio.positions.set change.key change.position := by
  obtain ⟨_, _, _, positions, _⟩ := Portfolio.applyFill_cases applied
  have key := (applyFill_settled filed applied).1
  simp only [Portfolio.project]
  split
  · rename_i isFiled
    rw [positions, if_pos isFiled, key]
  · rename_i unfiled
    simp only [positions, if_neg unfiled]

/-- A fill that books on its partition, whose row and record are `position`. -/
structure Moves (trades : Trades) (portfolio folded : Portfolio) (key : PartitionKey)
    (id : EventId) (size fee : Decimal) (position : Position) : Prop where
  size : position.signedSize = (portfolio.partition key).signedSize + size
  fee : position.fees = (portfolio.partition key).fees + fee
  ids : position.appliedEventIds = insert id (portfolio.partition key).appliedEventIds
  identity : folded.account.identity = portfolio.account.identity
  cash : folded.account.cash = portfolio.account.cash +
    (position.realizedPnl - (portfolio.partition key).realizedPnl) -
    (position.fees - (portfolio.partition key).fees)

/-- A fill new to its partition moves it. -/
theorem applyFill_moves {portfolio folded : Portfolio} {fill : BookableFill} {side : Side}
    {change : LedgerChange}
    (applied : portfolio.applyFill config fill side = .ok (folded, change))
    (fresh : fill.eventId ∉
      (portfolio.partition (fill.owner, fill.symbol)).appliedEventIds) :
    Moves trades portfolio folded (fill.owner, fill.symbol) fill.eventId
      (side.sign * fill.quantity) fill.fee change.position := by
  obtain ⟨_, _, _, _, ⟨seen, _⟩ | ⟨_, ⟨bucket, moved⟩, _, account⟩⟩ :=
    Portfolio.applyFill_cases applied
  · exact absurd seen fresh
  · rw [moved]
    constructor
    · exact Position.booked_signedSize _ _ _
    · exact Position.booked_fees _ _ _
    · exact Position.booked_appliedEventIds _ _ _
    · rw [account]; rfl
    · rw [account]; rfl

/-- A partition's own set names only booked fills. -/
theorem Recorded.of_partition (recorded : Recorded trades process) {key : PartitionKey}
    {id : EventId} (has : id ∈ (process.memory.portfolio.partition key).appliedEventIds) :
    Booked process.store id := by
  simp only [Portfolio.partition] at has
  cases there : process.memory.portfolio.positions.get key with
  | none =>
      rw [there] at has
      exact absurd has (Finset.notMem_empty _)
  | some position =>
      rw [there] at has
      exact recorded.ids key position there id has

/-- **A fill new to its order is new to its partition, and books on both.** -/
theorem fill_books {order : Order} {event : OrderEvent} {report : FillReport}
    {folded : Portfolio} {changes : List LedgerChange}
    (nowNs : Nanos) (synced : process.Synced config (fun _ => False))
    (recorded : Recorded trades process)
    (held : process.memory.cache.getOrder report.cloid = some order)
    (quantity : report.quantity = (trades report.cloid report.tradeId).quantity)
    (fee : report.fee = (trades report.cloid report.tradeId).fee)
    (named : event.eventId = .fill report.cloid report.tradeId)
    (fresh : EventId.fill report.cloid report.tradeId ∉ order.appliedEventIds)
    (applied : process.memory.portfolio.applyFills config
      [(bookableOf (order.enter event) report.tradeId report.quantity report.price report.fee,
        order.side)] = .ok (folded, changes)) :
    Recorded trades
      { process with
        memory :=
          { cache := (process.memory.cache.remember (order.enter event)).project
              (order.enter event) nowNs
            portfolio := changes.foldl Portfolio.project folded }
        store := process.store.checkpointLedger
          { account := folded.account
            positions := rowsOf folded changes
            order := some (order.enter event)
            tsNs := nowNs } } := by
  obtain ⟨change, rfl, fold⟩ := applyFills_single applied
  have filed := synced.ledger.filed
  have keyed : order.cloid = report.cloid := synced.orders.cacheKeyed _ order held
  have row : process.store.orders.get order.cloid = some order := by
    rw [keyed, ← synced.orders.orders _ not_false]
    exact held
  have key : change.key = partitionOf order := (applyFill_settled filed fold).1
  have current : keyOf (change.current folded) = partitionOf order ∧
      change.current folded = change.position := by
    have same := current_of_applyFill filed fold
    exact ⟨(congrArg keyOf same).trans key, same⟩
  -- No durable order has the fill, so the partition's own set cannot name it.
  have notBooked : ¬ Booked process.store (.fill report.cloid report.tradeId) := by
    rintro ⟨c, tradeId, other, same, there, has⟩
    cases same
    rw [← keyed, row] at there
    cases there
    exact fresh has
  have moves : Moves trades process.memory.portfolio folded (partitionOf order)
      (.fill report.cloid report.tradeId) (order.side.sign * report.quantity) report.fee
      change.position := by
    have id : (bookableOf (order.enter event) report.tradeId report.quantity report.price
        report.fee).eventId = .fill report.cloid report.tradeId := by
      rw [← keyed]
      rfl
    rw [← id]
    apply applyFill_moves fold
    rw [id]
    exact fun has => notBooked (recorded.of_partition has)
  -- What the transaction leaves, table by table.
  have orders : (process.store.checkpointLedger
      { account := folded.account, positions := rowsOf folded [change],
        order := some (order.enter event), tsNs := nowNs }).orders =
      process.store.orders.set order.cloid (order.enter event) :=
    Store.checkpointLedger_orders _ _
  have positions : (process.store.checkpointLedger
      { account := folded.account, positions := rowsOf folded [change],
        order := some (order.enter event), tsNs := nowNs }).positions =
      process.store.positions.set (partitionOf order) change.position.durable := by
    rw [Store.checkpointLedger_positions]
    simp only [rowsOf, List.map_cons, List.map_nil, Dict.setAll_cons, Dict.setAll_nil, current.1]
    rw [current.2]
  have account : (process.store.checkpointLedger
      { account := folded.account, positions := rowsOf folded [change],
        order := some (order.enter event), tsNs := nowNs }).account = some folded.account := by
    rw [Store.checkpointLedger_account]
    exact Store.writeAccount_of_identity synced.ledger.account moves.identity
  generalize process.store.checkpointLedger
    { account := folded.account, positions := rowsOf folded [change],
      order := some (order.enter event), tsNs := nowNs } = after at orders positions account ⊢
  have keeps : ∀ id, Booked process.store id → Booked after id := by
    rintro id ⟨c, tradeId, other, rfl, there, has⟩
    by_cases here : order.cloid = c
    · subst here
      rw [row] at there
      cases there
      refine ⟨_, _, order.enter event, rfl, ?_, ?_⟩
      · rw [orders]; exact Dict.get_set_self _ _ _
      · rw [Order.enter_appliedEventIds]; exact Finset.mem_insert_of_mem has
    · refine ⟨c, tradeId, other, rfl, ?_, has⟩
      rw [orders, Dict.get_set_ne _ _ here]
      exact there
  refine ⟨⟨?_, ?_, ?_, ?_⟩, ?_, ?_, ?_⟩
  · intro c other there cloid tradeId has
    rw [orders, Dict.get_set] at there
    split at there
    · rename_i here
      cases there
      rw [Order.enter_appliedEventIds, named, Finset.mem_insert] at has
      rcases has with same | has
      · cases same
        exact keyed.symm.trans here
      · rw [← here]
        exact recorded.accounted.ownFills _ order row cloid tradeId has
    · exact recorded.accounted.ownFills c other there cloid tradeId has
  · intro k
    have before := recorded.accounted.sizes k
    rw [orders, Dict.sum_set, row, Option.elim_some, (filled_enter named fresh k).1, ← before,
      durableSize, durableSize, positions, Dict.get_set]
    split
    · rename_i here
      subst here
      have held := durable_of_partition synced.ledger (partitionOf order) Position.signedSize
        (fun _ => rfl) rfl
      rw [held, Option.map_some, Option.getD_some, Position.durable_signedSize, moves.size,
        quantity]
      ring
    · ring
  · intro k
    have before := recorded.accounted.fees k
    rw [orders, Dict.sum_set, row, Option.elim_some, (filled_enter named fresh k).2, ← before,
      durableFees, durableFees, positions, Dict.get_set]
    split
    · rename_i here
      subst here
      have held := durable_of_partition synced.ledger (partitionOf order) Position.fees
        (fun _ => rfl) rfl
      rw [held, Option.map_some, Option.getD_some, Position.durable_fees, moves.fee, fee]
      ring
    · ring
  · refine ⟨folded.account, account, ?_⟩
    obtain ⟨stored, there, cash⟩ := recorded.accounted.cash
    rw [synced.ledger.account] at there
    cases there
    have genesis : folded.account.genesisCollateral =
        process.memory.portfolio.account.genesisCollateral :=
      congrArg (fun identity => identity.2.1) moves.identity
    rw [positions, sum_ledger_row synced.ledger _ _ Position.realizedPnl (fun _ => rfl) rfl,
      sum_ledger_row synced.ledger _ _ Position.fees (fun _ => rfl) rfl, moves.cash, cash, genesis]
    ring
  · intro c other there
    rw [orders, Dict.get_set] at there
    split at there
    · cases there
      exact recorded.unsplit _ order row
    · exact recorded.unsplit c other there
  · intro c cached other cachedHeld there
    have cachedHeld : ((process.memory.cache.orders.set order.cloid (order.enter event)).set
        order.cloid (order.enter event)).get c = some cached := cachedHeld
    rw [orders] at there
    simp only [Dict.get_set] at cachedHeld there
    split at cachedHeld
    · rename_i here
      rw [if_pos here] at there
      cases cachedHeld
      cases there
      exact BooksAlike.refl _
    · rename_i ne
      rw [if_neg ne] at there
      exact recorded.alike c cached other cachedHeld there
  · intro k position there id has
    have there : (folded.project change).positions.get k = some position := there
    rw [project_positions filed fold, key, Dict.get_set] at there
    split at there
    · cases there
      rw [moves.ids, Finset.mem_insert] at has
      rcases has with rfl | has
      · refine ⟨report.cloid, report.tradeId, order.enter event, rfl, ?_, ?_⟩
        · rw [← keyed]
          exact (congrArg (fun rows => Dict.get rows order.cloid) orders).trans
            (Dict.get_set_self _ _ _)
        · rw [Order.enter_appliedEventIds, named]; exact Finset.mem_insert_self _ _
      · exact keeps id (recorded.of_partition has)
    · exact keeps id (recorded.ids k position there id has)

/-- A fill's script: the saga and the fold in memory, one transaction, the
projection, then the announcement. -/
def fillScript (remembered folded projected : Memory) (rows : LedgerTxn) (event : OrderEvent) :
    List Effect :=
  .memory remembered :: [.memory folded, .write (.checkpointLedger rows), .memory projected] ++
    [.announce event]

/-- What a fill's script has made durable at each of its steps: nothing, or its
one transaction. -/
theorem play_fill_take (process : Process) (remembered folded projected : Memory)
    (rows : LedgerTxn) (event : OrderEvent) (steps : ℕ) :
    let made := (process.play
      ((fillScript remembered folded projected rows event).take steps)).store
    made = process.store ∨ made = process.store.checkpointLedger rows := by
  match steps with
  | 0 | 1 | 2 => exact Or.inl rfl
  | 3 | 4 => exact Or.inr rfl
  | _ + 5 =>
      rw [List.take_of_length_le (Nat.le_add_left 5 _)]
      exact Or.inr rfl

/-- **A fill report keeps the rows accounted at every step of its handling**, and
memory in line with them once it is handled. -/
theorem onFill_recorded {report : FillReport} (synced : process.Synced config (fun _ => False))
    (recorded : Recorded trades process)
    (quantity : report.quantity = (trades report.cloid report.tradeId).quantity)
    (fee : report.fee = (trades report.cloid report.tradeId).fee) :
    let script := onFill config process.memory process.store report nowNs
    (∀ steps, RowsRecorded trades (process.play (script.effects.take steps)).store) ∧
      (script.fault = none → Recorded trades (process.play script.effects)) := by
  have still : ∀ effects : List Effect, (effects = [] ∨ ∃ memory, effects = [.memory memory]) →
      ∀ steps, RowsRecorded trades (process.play (effects.take steps)).store := by
    intro effects shape steps
    rcases shape with rfl | ⟨memory, rfl⟩
    · rw [List.take_nil]
      exact recorded.rows
    · cases steps with
      | zero => exact recorded.rows
      | succ steps =>
          rw [List.take_succ_cons, List.take_nil]
          exact recorded.rows
  simp only [onFill]
  split
  · exact ⟨still _ (Or.inl rfl), fun _ => recorded⟩
  · rename_i order held
    split
    · exact ⟨still _ (Or.inl rfl), fun clean => by cases clean⟩
    · exact ⟨still _ (Or.inl rfl), fun _ => recorded⟩
    · rename_i advanced event filled
      obtain ⟨_, ⟨none, _⟩ | ⟨event', named, fresh, _, result⟩⟩ := Order.recordFill_cases filled
      · cases none
      · cases result
        have keyed : order.cloid = report.cloid := synced.orders.cacheKeyed _ order held
        have row : process.store.orders.get order.cloid = some order := by
          rw [keyed, ← synced.orders.orders _ not_false]
          exact held
        rw [keyed] at fresh
        have id : event.eventId = .fill report.cloid report.tradeId := by
          rw [named, ← keyed]
          rfl
        split
        · exact ⟨still _ (Or.inr ⟨_, rfl⟩), fun clean => by cases clean⟩
        · rename_i effects committed
          simp only [checkpointFill] at committed
          split at committed
          · cases committed
          · have unsplit : (order.enter event).splitBasis = none :=
              recorded.unsplit _ order row
            simp only [piecesOf, unsplit] at committed
            obtain ⟨folded, changes, applied, rfl⟩ := commitFolds_cases committed
            have booked := fill_books nowNs synced recorded held quantity fee id fresh applied
            constructor
            · intro steps
              rcases play_fill_take process (process.memory.remember (order.enter event))
                { (process.memory.remember (order.enter event)) with portfolio := folded }
                { cache := (process.memory.cache.remember (order.enter event)).project
                    (order.enter event) nowNs
                  portfolio := changes.foldl Portfolio.project folded }
                { account := folded.account
                  positions := rowsOf folded changes
                  order := some (order.enter event)
                  tsNs := nowNs } event steps with same | same
              · exact same ▸ recorded.rows
              · exact same ▸ booked.rows
            · intro _
              rw [play_fill]
              exact ⟨booked.accounted, booked.unsplit, booked.alike, booked.ids⟩

end Fill

/-! ## Every run -/

section Run

variable {deriveCloid : SignalId → Cloid} {config : Config}

/-- A life in step with its rows, whose rows are accounted. -/
structure Kept (config : Config) (trades : Trades) (life : Life) : Prop where
  steady : Steady config life
  recorded : Recorded trades life.process

/-- Every row this input makes durable on its way is accounted, and a handler that
ends without a raise leaves memory in line. -/
theorem handle_recorded {life : Life} {input : Input} {nowNs : Nanos}
    (kept : Kept config trades life) (plain : input.Plain trades)
    (taken : life.takes input = true) :
    let script := scriptOf deriveCloid config life.process nowNs input
    (∀ steps, RowsRecorded trades (life.process.play (script.effects.take steps)).store) ∧
      (script.fault = none → Recorded trades (life.process.play script.effects)) := by
  intro script
  have quiet : ∀ effects : List Effect,
      Along perform (Quiet BooksAlike Blank (fun _ _ => True)) life.process effects →
      (∀ steps, RowsRecorded trades (life.process.play (effects.take steps)).store) ∧
        (script.fault = none → Recorded trades (life.process.play effects)) := fun effects along =>
    ⟨fun steps => (along.keeps_take (Recorded trades) quiet_recorded kept.recorded steps).rows,
      fun _ => along.keeps (Recorded trades) quiet_recorded kept.recorded⟩
  have idle : input.onBus = true → life.process.Synced config (fun _ => False) :=
    fun onBus => kept.steady.onBus onBus taken
  have succession := booksAlike_succession
  have alike := kept.recorded.alike
  cases input with
  | place gates signal verdict =>
      exact quiet _ (onPlace_quiet succession (idle rfl) alike (fun _ => blank_denied _ _)
        (fun _ _ _ => blank_approved plain _) fun _ _ _ _ _ _ _ _ _ => trivial)
  | cancel signal => exact quiet _ (onCancel_quiet succession (idle rfl) alike)
  | cancelAll signal => exact quiet _ (onCancelAll_quiet succession (idle rfl) alike)
  | report report =>
      cases report with
      | status report => exact quiet _ (onStatus_quiet succession (idle rfl) alike)
      | fill report => exact onFill_recorded (idle rfl) kept.recorded plain.1 plain.2
      | refused cloid symbol => exact quiet [] trivial
  | emit strategyId seq => exact quiet _ (emit_quiet alike strategyId seq)
  | operatorCancel resting =>
      exact quiet _ (cancelForOperator_quiet succession kept.steady.synced alike kept.steady.row)
  | funding _ | heal _ _ _ | leftover _ => exact plain.elim

/-- A restart over accounted rows forgets every partition's own set, and nothing
the accounting needs. -/
theorem restart_kept {process : Process} {restartNs : Nanos} {next : Life}
    (sound : Sound config process.store) (rows : RowsRecorded trades process.store)
    (restarted : restart config process restartNs = some next) : Kept config trades next := by
  have steady := restart_steady sound restarted
  obtain ⟨account, there⟩ := sound.account
  simp only [restart, recover_of_account there sound.tradable] at restarted
  cases restarted
  refine ⟨steady.1, rows.accounted, rows.unsplit, ?_, ?_⟩
  · exact (steady.1.idle rfl).linked booksAlike_succession
  · intro key position held id has
    have held : (process.store.positions.arrange keyLe).get key = some position := held
    rw [Dict.arrange_same _ _ key] at held
    rw [← (sound.positions key position held).2, Position.durable_appliedEventIds] at has
    exact absurd has (Finset.notMem_empty _)

/-- **Every step of the engine keeps the rows accounted**, a crash's step too. -/
theorem step_kept {life next : Life} {label : Label} (kept : Kept config trades life)
    (plain : label.Plain trades)
    (stepped : (engine deriveCloid config).step life label = some next) :
    Kept config trades next := by
  have steady := step_steady kept.steady stepped
  cases label with
  | handle input nowNs =>
      refine ⟨steady, ?_⟩
      simp only [engine] at stepped
      split at stepped
      · rename_i enabled
        cases stepped
        exact (handle_recorded kept plain enabled.1).2 enabled.2
      · cases stepped
  | sent nowNs =>
      refine ⟨steady, ?_⟩
      simp only [engine] at stepped
      split at stepped
      · cases stepped
      · rename_i cloid waiting
        cases stepped
        have quiet : Along perform (Quiet BooksAlike Blank (fun _ _ => True)) life.process
            (afterSend life.process.memory cloid nowNs).effects :=
          afterSend_quiet booksAlike_succession kept.steady.synced kept.recorded.alike
            (kept.steady.row cloid waiting)
        exact quiet.keeps (Recorded trades) quiet_recorded kept.recorded
  | crash restartNs => exact restart_kept kept.steady.synced.sound kept.recorded.rows stepped
  | crashIn input nowNs steps restartNs =>
      simp only [engine] at stepped
      split at stepped
      · rename_i taken
        exact restart_kept (sound_take kept.steady.synced.sound _ steps)
          ((handle_recorded kept plain taken).1 steps) stepped
      · cases stepped

/-- The rows a first life starts over are accounted. -/
theorem Begun.rowsRecorded {store : Store} (begun : Begun store) : RowsRecorded trades store := by
  obtain ⟨account, opened, genesis⟩ := begun.genesis
  refine ⟨⟨?_, ?_, ?_, account, opened, ?_⟩, ?_⟩
  · intro c order there
    rw [begun.orders] at there
    cases there
  · intro key
    rw [durableSize, begun.orders, begun.positions]
    rfl
  · intro key
    rw [durableFees, begun.orders, begun.positions]
    rfl
  · rw [begun.positions, genesis, Dict.sum_empty, Dict.sum_empty]
    ring
  · intro c order there
    rw [begun.orders] at there
    cases there

/-- The first life over an untraded store starts accounted. -/
theorem untraded_kept {process : Process} {startNs : Nanos} {first : Life}
    (untraded : Untraded config process.store)
    (began : restart config process startNs = some first) : Kept config trades first := by
  obtain ⟨steady, begun⟩ := untraded_steady untraded began
  have rows : RowsRecorded trades first.process.store := begun.rowsRecorded
  refine ⟨steady, rows.accounted, rows.unsplit, ?_, ?_⟩
  · intro c order row _ there
    rw [begun.orders] at there
    cases there
  · intro key position held
    have row := steady.synced.ledger.positions key
    rw [Dict.get_map, held, begun.positions] at row
    cases row

/-- **Every fill is booked exactly once, in every run.**  From a ledger no order
has reached, with crashes between any two steps of any handler and every report
redelivered at will, the rows are accounted in every durable state: between
inputs, and after any number of steps of the next one. -/
theorem run_accounted {process : Process} {startNs : Nanos} {first last : Life}
    {labels : List Label} (untraded : Untraded config process.store)
    (begun : restart config process startNs = some first)
    (plain : ∀ label ∈ labels, label.Plain trades)
    (ran : (engine deriveCloid config).run first labels = some last) :
    Accounted trades last.process.store ∧
      ∀ input nowNs steps, input.Plain trades → last.takes input = true →
        Accounted trades (last.process.play
          ((scriptOf deriveCloid config last.process nowNs input).effects.take steps)).store := by
  have begin : Kept config trades first := untraded_kept untraded begun
  have kept : Kept config trades last := by
    clear begun
    induction labels generalizing first with
    | nil => cases ran; exact begin
    | cons label rest ih =>
        obtain ⟨middle, enabled, tail⟩ := Machine.run_cons_eq_some.mp ran
        have now := plain label List.mem_cons_self
        exact ih (fun l member => plain l (List.mem_cons_of_mem _ member)) tail
          (step_kept begin now enabled)
  refine ⟨kept.recorded.accounted, ?_⟩
  intro input nowNs steps now taken
  exact ((handle_recorded kept now taken).1 steps).accounted

end Run

/-- A fill whose transaction outlived its process, and that came again, is booked
once. -/
theorem sample_accounted :
    ∃ first last, restart Sample.paper Sample.unstarted 0 = some first ∧
      (engine Sample.cloidOf Sample.paper).run first Sample.labels = some last ∧
      durableSize last.process.store (some Sample.momentum, "BTC") = 4 ∧
      Accounted (fun _ _ => { quantity := 4, fee := 1 }) last.process.store := by
  have lived : ((restart Sample.paper Sample.unstarted 0).bind fun first =>
      ((engine Sample.cloidOf Sample.paper).run first Sample.labels).map fun last =>
        durableSize last.process.store (some Sample.momentum, "BTC")) = some 4 := by
    decide +kernel
  obtain ⟨first, begun, lived⟩ := Option.bind_eq_some_iff.mp lived
  obtain ⟨last, ran, size⟩ := Option.map_eq_some_iff.mp lived
  refine ⟨first, last, begun, ran, size, ?_⟩
  refine (run_accounted Sample.unstarted_untraded begun ?_ ran).1
  intro label member
  simp only [Sample.labels, List.mem_cons, List.not_mem_nil, or_false] at member
  rcases member with rfl | rfl | rfl | rfl | rfl
  · exact fun same => absurd (congrArg StrategyId.id same) (by decide)
  · trivial
  · trivial
  · exact ⟨rfl, rfl⟩
  · exact ⟨rfl, rfl⟩

end Tickwright.Engine
