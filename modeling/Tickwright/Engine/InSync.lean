/-
# Engine.InSync -- what memory and the durable rows agree on between handlers

Between two handled events the read-models are a write-through image of the
store.  `OrderSync stale` says the order cache agrees on every cloid but the
`stale` ones (a saga a handler advanced in place and has not written yet);
`LedgerSync` says the account row is the account held and every partition's row
is what a row keeps of it.

One lemma a verb of the `Checkpointer` (`OrderSync.checkpoint`,
`LedgerSync.ledger`) and one a handler of the `ExecutionManager`
(`Synced.onPlace` to `Synced.onFill`): each handler that does not raise leaves
the process in sync.  Every claim about crashes and restarts starts here.
-/
import Tickwright.Engine.Execution

namespace Tickwright.Engine

open Tickwright.Domain Tickwright.Theory Tickwright.Store

set_option autoImplicit false

/-! ## The order cache -/

/-- The cache agrees with the rows on every cloid that is not `stale`. -/
structure OrderSync (stale : Cloid → Prop) (cache : Cache) (store : Store) : Prop where
  orders : ∀ c, ¬ stale c → cache.orders.get c = store.orders.get c
  known : ∀ c, (store.orders.get c).isSome = true → (cache.orders.get c).isSome = true
  cacheKeyed : ∀ c order, cache.orders.get c = some order → order.cloid = c
  rowsKeyed : ∀ c order, store.orders.get c = some order → order.cloid = c
  seqs : ∀ s, (cache.seqRecords.get s).getD 0 = (store.seqRecords.get s).getD 0

namespace OrderSync

variable {stale : Cloid → Prop} {cache : Cache} {store : Store}

theorem weaken {stale' : Cloid → Prop} (sync : OrderSync stale cache store)
    (weaker : ∀ c, stale c → stale' c) : OrderSync stale' cache store where
  orders c fresh := sync.orders c fun h => fresh (weaker c h)
  known := sync.known
  cacheKeyed := sync.cacheKeyed
  rowsKeyed := sync.rowsKeyed
  seqs := sync.seqs

theorem keyed_set {orders : Dict Cloid Order} {order : Order}
    (keyed : ∀ c o, orders.get c = some o → o.cloid = c) :
    ∀ c o, (orders.set order.cloid order).get c = some o → o.cloid = c := by
  intro c o there
  rw [Dict.get_set] at there
  split at there
  · rename_i same
    cases there
    exact same
  · exact keyed c o there

/-- Writing a saga keeps every saga there was. -/
theorem isSome_set {orders : Dict Cloid Order} {order : Order} {c : Cloid}
    (there : (orders.get c).isSome = true) : ((orders.set order.cloid order).get c).isSome = true := by
  rw [Dict.get_set]
  split
  · rfl
  · exact there

/-- A saga advanced in place goes stale. -/
theorem remember (sync : OrderSync stale cache store) (order : Order) :
    OrderSync (fun c => stale c ∨ c = order.cloid) (cache.remember order) store where
  orders c fresh := by
    rw [not_or] at fresh
    simp only [Cache.remember]
    rw [Dict.get_set_ne _ _ (Ne.symm fresh.2)]
    exact sync.orders c fresh.1
  known c row := isSome_set (sync.known c row)
  cacheKeyed := keyed_set sync.cacheKeyed
  rowsKeyed := sync.rowsKeyed
  seqs := sync.seqs

/-- **A checkpoint brings its cloid in sync.** -/
theorem checkpoint (sync : OrderSync stale cache store) (order : Order) (tsNs : Nanos) :
    OrderSync (fun c => stale c ∧ c ≠ order.cloid) (cache.project order tsNs)
      (store.writeOrder order tsNs) where
  orders c fresh := by
    simp only [Cache.project, Store.writeOrder_orders, Dict.get_set]
    split
    · rfl
    · rename_i ne
      exact sync.orders c fun h => fresh ⟨h, Ne.symm ne⟩
  known c row := by
    simp only [Cache.project, Store.writeOrder_orders, Dict.get_set] at row ⊢
    split
    · rfl
    · rename_i ne
      rw [if_neg ne] at row
      exact sync.known c row
  cacheKeyed := keyed_set sync.cacheKeyed
  rowsKeyed := keyed_set sync.rowsKeyed
  seqs := sync.seqs

/-- A saga remembered and then written leaves the rest as it was. -/
theorem rewrite (sync : OrderSync stale cache store) (order : Order) (tsNs : Nanos) :
    OrderSync stale ((cache.remember order).project order tsNs)
      (store.writeOrder order tsNs) := by
  refine ((sync.remember order).checkpoint order tsNs).weaken ?_
  rintro c ⟨h | h, ne⟩
  · exact h
  · exact absurd h ne

theorem raiseSeq (sync : OrderSync stale cache store) (strategyId : StrategyId) (seq : ℕ) :
    OrderSync stale (cache.raiseSeq strategyId seq) (store.raiseSeq strategyId seq) where
  orders c fresh := by rw [Store.raiseSeq_orders]; exact sync.orders c fresh
  known c row := by rw [Store.raiseSeq_orders] at row; exact sync.known c row
  cacheKeyed := sync.cacheKeyed
  rowsKeyed := by rw [Store.raiseSeq_orders]; exact sync.rowsKeyed
  seqs s := by
    rw [Store.raiseSeq_get]
    simp only [Cache.raiseSeq, Dict.get_set]
    split
    · rename_i same
      rw [Option.getD_some, sync.seqs strategyId]
    · exact sync.seqs s

/-- A ledger transaction with no order row leaves the order side alone. -/
theorem ledger (sync : OrderSync stale cache store) {rows : LedgerTxn} (none : rows.order = none) :
    OrderSync stale cache (store.checkpointLedger rows) where
  orders c fresh := by
    rw [Store.checkpointLedger_orders, none]
    exact sync.orders c fresh
  known c row := by
    rw [Store.checkpointLedger_orders, none] at row
    exact sync.known c row
  cacheKeyed := sync.cacheKeyed
  rowsKeyed := by
    rw [Store.checkpointLedger_orders, none]
    exact sync.rowsKeyed
  seqs s := by rw [Store.checkpointLedger_seqRecords]; exact sync.seqs s

/-- A ledger transaction that carries an order row is that row's checkpoint. -/
theorem ledgerOrder (sync : OrderSync stale cache store) {rows : LedgerTxn} {order : Order}
    (carried : rows.order = some order) (tsNs : Nanos) :
    OrderSync (fun c => stale c ∧ c ≠ order.cloid) (cache.project order tsNs)
      (store.checkpointLedger rows) where
  orders c fresh := by
    rw [Store.checkpointLedger_orders, carried]
    exact (sync.checkpoint order tsNs).orders c fresh
  known c row := by
    rw [Store.checkpointLedger_orders, carried] at row
    exact (sync.checkpoint order tsNs).known c row
  cacheKeyed := keyed_set sync.cacheKeyed
  rowsKeyed := by
    rw [Store.checkpointLedger_orders, carried]
    exact keyed_set sync.rowsKeyed
  seqs s := by rw [Store.checkpointLedger_seqRecords]; exact sync.seqs s

end OrderSync

/-! ## The ledger -/

/-- Every filed partition is filed under its own key, and settled. -/
def Filed (positions : Dict PartitionKey Position) : Prop :=
  ∀ k position, positions.get k = some position → keyOf position = k ∧ position.Settled

/-- The ledger rows are what a row keeps of the ledger held. -/
structure LedgerSync (config : Config) (portfolio : Portfolio) (store : Store) : Prop where
  account : store.account = some portfolio.account
  tradable : refuseDisagreement config store = none
  filed : Filed portfolio.positions
  positions : (portfolio.positions.map Position.durable).Same store.positions

theorem Filed.set {positions : Dict PartitionKey Position} {position : Position}
    (filed : Filed positions) (settled : position.Settled) :
    Filed (positions.set (keyOf position) position) := by
  intro k p there
  rw [Dict.get_set] at there
  split at there
  · rename_i same
    cases there
    exact ⟨same, settled⟩
  · exact filed k p there

theorem Filed.empty : Filed Dict.empty := nofun

theorem Filed.setAll {positions : Dict PartitionKey Position} {rows : List Position}
    (filed : Filed positions) (settled : ∀ position ∈ rows, position.Settled) :
    Filed (positions.setAll (rows.map fun position => (keyOf position, position))) := by
  induction rows generalizing positions with
  | nil => exact filed
  | cons position rest ih =>
      rw [List.map_cons, Dict.setAll_cons]
      exact ih (filed.set (settled position List.mem_cons_self))
        fun p member => settled p (List.mem_cons_of_mem _ member)

/-- No two filed partitions have one key. -/
theorem Filed.keys_nodup {positions : Dict PartitionKey Position} (filed : Filed positions) :
    (positions.values.map keyOf).Nodup := by
  have same : positions.values.map keyOf = positions.keys := by
    unfold Dict.values Dict.keys
    rw [List.map_map]
    apply List.map_congr_left
    intro entry member
    exact (filed entry.1 entry.2 ((Dict.get_eq_some _ _ _).mpr member)).1
  rw [same]
  exact positions.keys_nodup

theorem Filed.get_of_mem {positions : Dict PartitionKey Position} (filed : Filed positions)
    {position : Position} (member : position ∈ positions.values) :
    positions.get (keyOf position) = some position := by
  obtain ⟨k, there⟩ := (Dict.mem_values _ _).mp member
  rw [(filed k position there).1]
  exact there

/-- The refusal reads the account's identity and nothing else of an open ledger. -/
theorem refuseDisagreement_of_identity {config : Config} {store store' : Store}
    {account account' : Account} (there : store.account = some account)
    (there' : store'.account = some account') (same : account'.identity = account.identity) :
    refuseDisagreement config store' = none ↔ refuseDisagreement config store = none := by
  have ids : account'.accountId = account.accountId := congrArg (fun i => i.1) same
  have genesis : account'.genesisCollateral = account.genesisCollateral :=
    congrArg (fun i => i.2.1) same
  simp only [refuseDisagreement, there, there', ids, genesis]
  constructor <;> intro h <;> split at h <;> simp_all

namespace LedgerSync

variable {config : Config} {portfolio : Portfolio} {store : Store}

/-- A write that leaves the ledger rows leaves the ledger in sync. -/
theorem frame {store' : Store} (sync : LedgerSync config portfolio store)
    (account : store'.account = store.account) (positions : store'.positions = store.positions) :
    LedgerSync config portfolio store' where
  account := account.trans sync.account
  tradable := by
    rw [refuseDisagreement_of_identity sync.account (account.trans sync.account) rfl]
    exact sync.tradable
  filed := sync.filed
  positions := by rw [positions]; exact sync.positions

theorem writeOrder (sync : LedgerSync config portfolio store) (order : Order) (tsNs : Nanos) :
    LedgerSync config portfolio (store.writeOrder order tsNs) :=
  sync.frame rfl rfl

theorem raiseSeq (sync : LedgerSync config portfolio store) (strategyId : StrategyId) (seq : ℕ) :
    LedgerSync config portfolio (store.raiseSeq strategyId seq) :=
  sync.frame (store.raiseSeq_account strategyId seq) (store.raiseSeq_positions strategyId seq)

/-- **A ledger transaction keeps the ledger in sync** when the rows it writes
are exactly the partitions the fold moved. -/
theorem ledger (sync : LedgerSync config portfolio store) {after : Portfolio} {rows : LedgerTxn}
    (account : rows.account = after.account)
    (identity : after.account.identity = portfolio.account.identity)
    (settled : ∀ position ∈ rows.positions, position.Settled)
    (moved : after.positions.Same
      (portfolio.positions.setAll (rows.positions.map fun position => (keyOf position, position)))) :
    LedgerSync config after (store.checkpointLedger rows) where
  account := by
    rw [Store.checkpointLedger_account, account]
    exact Store.writeAccount_of_identity sync.account identity
  tradable := by
    rw [refuseDisagreement_of_identity sync.account
      (by
        rw [Store.checkpointLedger_account, account]
        exact Store.writeAccount_of_identity sync.account identity) identity]
    exact sync.tradable
  filed k position there := by
    rw [moved k] at there
    exact sync.filed.setAll settled k position there
  positions := by
    rw [Store.checkpointLedger_positions]
    refine (moved.map Position.durable).trans ?_
    rw [Dict.map_setAll, List.map_map]
    exact sync.positions.setAll _

end LedgerSync

/-! ## Folds move exactly the rows they write -/

/-- A change's own record, settled and filed under its key. -/
theorem applyFill_settled {config : Config} {portfolio after : Portfolio} {fill : BookableFill}
    {side : Side} {change : LedgerChange} (filed : Filed portfolio.positions)
    (folded : portfolio.applyFill config fill side = .ok (after, change)) :
    change.key = (fill.owner, fill.symbol) ∧ change.position.Settled := by
  have start : keyOf (portfolio.partition (fill.owner, fill.symbol)) = (fill.owner, fill.symbol) ∧
      (portfolio.partition (fill.owner, fill.symbol)).Settled := by
    simp only [Portfolio.partition]
    cases there : portfolio.positions.get (fill.owner, fill.symbol) with
    | none => exact ⟨rfl, Position.settled_new _ _⟩
    | some position => exact filed _ _ there
  obtain ⟨positive, _, _, _, ⟨_, same, _⟩ | ⟨_, ⟨bucket, moved⟩, _⟩⟩ :=
    Portfolio.applyFill_cases folded
  · rw [LedgerChange.key, same]
    exact start
  · rw [LedgerChange.key, moved]
    constructor
    · refine Eq.trans ?_ start.1
      simp only [keyOf, Position.booked_owner, Position.booked_symbol]
    · have booked : (((portfolio.partition (fill.owner, fill.symbol)).booked fill side).1).Settled := by
        simp only [Position.booked]
        apply Position.Settled.book
        cases side
        · exact positive.ne'
        · exact neg_ne_zero.mpr positive.ne'
      exact booked

/-- A read-model with changes still to project: the filed records and the
unfiled ones are settled, and `filed` says which are which. -/
structure Awaiting (portfolio : Portfolio) (changes : List LedgerChange) : Prop where
  filed : Filed portfolio.positions
  settled : ∀ change ∈ changes, change.position.Settled
  held : ∀ change ∈ changes, change.filed = (portfolio.positions.get change.key).isSome

/-- What one batch of fills leaves: the account's identity, no partition filed or
dropped, and every key outside the batch untouched. -/
structure Folded (portfolio after : Portfolio) (changes : List LedgerChange) : Prop
    extends Awaiting after changes where
  identity : after.account.identity = portfolio.account.identity
  opened : after.opened = portfolio.opened
  same : ∀ k, (after.positions.get k).isSome = (portfolio.positions.get k).isSome
  off : ∀ k, k ∉ changes.map LedgerChange.key → after.positions.get k = portfolio.positions.get k

theorem applyFills_folded {config : Config} {portfolio after : Portfolio}
    {pieces : List (BookableFill × Side)} {changes : List LedgerChange}
    (filed : Filed portfolio.positions)
    (folded : portfolio.applyFills config pieces = .ok (after, changes)) :
    Folded portfolio after changes := by
  induction pieces generalizing portfolio changes with
  | nil =>
      cases folded
      exact ⟨⟨filed, nofun, nofun⟩, rfl, rfl, fun _ => rfl, fun _ _ => rfl⟩
  | cons piece rest ih =>
      obtain ⟨fill, side⟩ := piece
      simp only [Portfolio.applyFills] at folded
      cases first : portfolio.applyFill config fill side with
      | error violation => rw [first] at folded; cases folded
      | ok pair =>
          obtain ⟨middle, change⟩ := pair
          rw [first] at folded
          simp only at folded
          cases second : Portfolio.applyFills config middle rest with
          | error violation => rw [second] at folded; cases folded
          | ok pair =>
              obtain ⟨last, more⟩ := pair
              rw [second] at folded
              cases folded
              obtain ⟨keyed, settled⟩ := applyFill_settled filed first
              obtain ⟨_, wasFiled, opened, positions, moved⟩ := Portfolio.applyFill_cases first
              have middleFiled : Filed middle.positions := by
                rw [positions]
                split
                · rw [← keyed]
                  exact filed.set settled
                · exact filed
              have middleIdentity : middle.account.identity = portfolio.account.identity := by
                rcases moved with ⟨_, _, _, account⟩ | ⟨_, _, _, account⟩
                · rw [account]
                · rw [account]; rfl
              have middleOff : ∀ k, k ≠ change.key →
                  middle.positions.get k = portfolio.positions.get k := by
                intro k ne
                rw [positions]
                split
                · rw [← keyed, Dict.get_set_ne _ _ (Ne.symm ne)]
                · rfl
              have middleHeld : ∀ k, (middle.positions.get k).isSome =
                  (portfolio.positions.get k).isSome := by
                intro k
                rw [positions]
                split
                · rename_i here
                  rw [Dict.get_set]
                  split
                  · rename_i same
                    subst same
                    rw [← wasFiled, here]
                    rfl
                  · rfl
                · rfl
              have tail := ih middleFiled second
              have same : ∀ k, (after.positions.get k).isSome =
                  (portfolio.positions.get k).isSome :=
                fun k => (tail.same k).trans (middleHeld k)
              refine ⟨⟨tail.filed, ?_, ?_⟩, tail.identity.trans middleIdentity,
                tail.opened.trans opened, same, ?_⟩
              · intro c member
                rcases List.mem_cons.mp member with rfl | later
                · exact settled
                · exact tail.settled c later
              · intro c member
                rcases List.mem_cons.mp member with rfl | later
                · rw [keyed, same]; exact wasFiled
                · exact tail.held c later
              · intro k absent
                simp only [List.map_cons, List.mem_cons, not_or] at absent
                rw [tail.off k absent.2, middleOff k absent.1]

/-- The rows a batch of changes writes. -/
def rowsOf (portfolio : Portfolio) (changes : List LedgerChange) : List Position :=
  changes.map fun change => change.current portfolio

section Rows

variable {portfolio after : Portfolio} {changes : List LedgerChange}

theorem Awaiting.current_key (awaiting : Awaiting after changes) (change : LedgerChange) :
    keyOf (change.current after) = change.key := by
  simp only [LedgerChange.current]
  split
  · cases there : after.positions.get change.key with
    | none => rfl
    | some position => exact (awaiting.filed _ _ there).1
  · rfl

theorem Awaiting.current_settled (awaiting : Awaiting after changes) {change : LedgerChange}
    (member : change ∈ changes) : (change.current after).Settled := by
  simp only [LedgerChange.current]
  split
  · cases there : after.positions.get change.key with
    | none => exact awaiting.settled change member
    | some position => exact (awaiting.filed _ _ there).2
  · exact awaiting.settled change member

/-- A filed change's current record is the filed one. -/
theorem Awaiting.current_filed (awaiting : Awaiting after changes) {change : LedgerChange}
    (member : change ∈ changes) (filed : change.filed = true) :
    after.positions.get change.key = some (change.current after) := by
  have isSome : (after.positions.get change.key).isSome = true := by
    rw [← awaiting.held change member, filed]
  obtain ⟨position, here⟩ := Option.isSome_iff_exists.mp isSome
  simp only [LedgerChange.current, filed, if_true, here, Option.getD_some]

/-- Projecting a batch is writing its rows into memory: a filed record is there
already, an unfiled one is filed now. -/
theorem Awaiting.project (awaiting : Awaiting after changes) :
    (changes.foldl Portfolio.project after).positions =
      after.positions.setAll ((rowsOf after changes).map fun position =>
        (keyOf position, position)) := by
  -- The accumulator reads as `after` at every key of a filed change.
  suffices step : ∀ (rest : List LedgerChange) (acc : Portfolio),
      (∀ change ∈ rest, change ∈ changes) →
      (∀ change ∈ changes, change.filed = true →
        acc.positions.get change.key = after.positions.get change.key) →
      (rest.foldl Portfolio.project acc).positions =
        acc.positions.setAll ((rowsOf after rest).map fun position =>
          (keyOf position, position)) from
    step changes after (fun _ member => member) fun _ _ _ => rfl
  intro rest
  induction rest with
  | nil => intro acc _ _; rfl
  | cons change rest ih =>
      intro acc members agrees
      have member := members change List.mem_cons_self
      simp only [List.foldl_cons, rowsOf, List.map_cons, Dict.setAll_cons]
      rw [awaiting.current_key change]
      cases filed : change.filed with
      | true =>
          have same : acc.project change = acc := by simp only [Portfolio.project, filed, if_true]
          have there : acc.positions.get change.key = some (change.current after) := by
            rw [agrees change member filed]
            exact awaiting.current_filed member filed
          rw [same, Dict.set_get_self _ there]
          exact ih acc (fun c m => members c (List.mem_cons_of_mem _ m)) agrees
      | false =>
          have filing : (acc.project change).positions =
              acc.positions.set change.key (change.current after) := by
            simp only [Portfolio.project, LedgerChange.current, filed]
            rfl
          rw [← filing]
          apply ih _ fun c m => members c (List.mem_cons_of_mem _ m)
          intro other otherMember otherFiled
          have ne : change.key ≠ other.key := by
            intro same
            have h := awaiting.held change member
            rw [same, ← awaiting.held other otherMember, filed, otherFiled] at h
            cases h
          rw [filing, Dict.get_set_ne _ _ ne]
          exact agrees other otherMember otherFiled

theorem Awaiting.rowsOf_key (awaiting : Awaiting after changes) :
    ((rowsOf after changes).map fun position => (keyOf position, position)).map Prod.fst =
      changes.map LedgerChange.key := by
  simp only [rowsOf, List.map_map]
  apply List.map_congr_left
  intro change _
  exact awaiting.current_key change

/-- **What a batch leaves in memory is what its rows say.** -/
theorem Folded.moved (folded : Folded portfolio after changes) :
    ((changes.foldl Portfolio.project after).positions).Same
      (portfolio.positions.setAll ((rowsOf after changes).map fun position =>
        (keyOf position, position))) := by
  rw [folded.project]
  apply Dict.setAll_same_off
  intro k absent
  rw [folded.rowsOf_key] at absent
  exact folded.off k absent

theorem project_account (changes : List LedgerChange) (acc : Portfolio) :
    (changes.foldl Portfolio.project acc).account = acc.account := by
  induction changes generalizing acc with
  | nil => rfl
  | cons change rest ih =>
      rw [List.foldl_cons, ih]
      simp only [Portfolio.project]
      split <;> rfl

end Rows

/-! ## A process in sync -/

/-- Between two handlers: both read-models agree with the durable rows, the
`stale` cloids aside. -/
structure Process.Synced (config : Config) (stale : Cloid → Prop) (process : Process) : Prop where
  orders : OrderSync stale process.memory.cache process.store
  ledger : LedgerSync config process.memory.portfolio process.store

/-- Perform a whole script. -/
def Process.play (process : Process) (effects : List Effect) : Process :=
  exec perform process effects

@[simp] theorem Process.play_nil (process : Process) : process.play [] = process := rfl

theorem Process.play_append (process : Process) (first second : List Effect) :
    process.play (first ++ second) = (process.play first).play second :=
  exec_append perform process first second

/-- A checkpoint writes the row, then projects it. -/
theorem play_checkpoint (process : Process) (memory : Memory) (order : Order) (tsNs : Nanos) :
    process.play (checkpoint memory order tsNs) =
      { process with
        memory := memory.project order tsNs
        store := process.store.writeOrder order tsNs } := rfl

end Tickwright.Engine
