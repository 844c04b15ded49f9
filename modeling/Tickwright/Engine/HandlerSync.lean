/-
# Engine.HandlerSync -- every handler leaves memory and the rows in agreement

`Engine.InSync` says what a write does to the agreement; this module walks each
handler's script.  A process in sync that plays a whole script, one that does
not end on a fault, is in sync again:

* `Synced.onPlace`, `Synced.onCancel`, `Synced.onCancelAll`,
  `Synced.cancelForOperator`, `Synced.onStatus`, `Synced.onFill` for the
  `ExecutionManager`;
* `Synced.checkpointLeftover`, `Synced.checkpointHeal`,
  `Synced.checkpointFunding` for the ledger verbs with no order behind them.

A crash leaves rows between two transactions, and every transaction keeps the
rows `Sound`, so `recover_of_sound` covers every crash point.  `agrees_of_synced`
closes the circle: a fresh recovery over the rows of a process in sync holds the
same orders and, dedup sets aside, the same ledger.
-/
import Tickwright.Engine.InSync

namespace Tickwright.Engine

open Tickwright.Domain Tickwright.Theory Tickwright.Store

set_option autoImplicit false

variable {config : Config} {stale : Cloid → Prop} {process : Process} {nowNs : Nanos}

/-! ## Handlers that touch no ledger row -/

/-- A saga advanced in place, then written: the rest of every handler's tail. -/
theorem Process.Synced.rewrite (synced : process.Synced config stale) (order : Order) (tsNs : Nanos) :
    (process.play (.memory (process.memory.remember order) ::
      checkpoint (process.memory.remember order) order tsNs)).Synced config stale :=
  ⟨synced.orders.rewrite order tsNs, synced.ledger.writeOrder order tsNs⟩

theorem Process.Synced.checkpoint (synced : process.Synced config stale) (order : Order)
    (tsNs : Nanos) : (process.play (checkpoint process.memory order tsNs)).Synced config stale :=
  ⟨(synced.orders.checkpoint order tsNs).weaken fun _ h => h.1,
    synced.ledger.writeOrder order tsNs⟩

/-- A placement that reached its send leaves its own cloid stale: memory holds
`SUBMITTED`, the row still `PENDING`. -/
theorem Process.Synced.placeOrder (synced : process.Synced config stale) (order : Order) :
    (process.play (placeOrder process.memory order nowNs).effects).Synced config
      (fun c => stale c ∨ c = order.cloid) := by
  have opened := (synced.orders.checkpoint order nowNs).weaken (fun c h => (h.1 : stale c))
  have sent := opened.remember (submit order nowNs)
  simp only [Engine.placeOrder]
  split
  · exact ⟨sent, synced.ledger.writeOrder order nowNs⟩
  · exact ⟨sent, synced.ledger.writeOrder order nowNs⟩

theorem Process.Synced.onPlace (synced : process.Synced config stale)
    (deriveCloid : SignalId → Cloid) (gates : Gates) (signal : PlaceSignal)
    (verdict : GuardDecision)
    (clean : (onPlace deriveCloid gates process.memory signal verdict nowNs).fault = none) :
    (process.play
      (onPlace deriveCloid gates process.memory signal verdict nowNs).effects).Synced config
      (fun c => stale c ∨
        (onPlace deriveCloid gates process.memory signal verdict nowNs).awaiting = some c) := by
  simp only [Engine.onPlace] at clean ⊢
  split
  · exact ⟨synced.orders.weaken fun c h => Or.inl h, synced.ledger⟩
  · rename_i absent
    simp only [absent] at clean
    split
    · exact ⟨(synced.orders.checkpoint _ nowNs).weaken fun c h => Or.inl h.1,
        synced.ledger.writeOrder _ nowNs⟩
    · rename_i quantity price basis approved
      simp only [approved] at clean
      have placed : (process.play (Engine.placeOrder process.memory
          (approvedOrder (deriveCloid signal.signalId) signal quantity price basis nowNs)
          nowNs).effects).Synced config _ := synced.placeOrder _
      refine ⟨placed.orders.weaken ?_, placed.ledger⟩
      rintro c (h | rfl)
      · exact Or.inl h
      · refine Or.inr ?_
        simp only [Engine.placeOrder] at clean ⊢
        split at clean
        · cases clean
        · rfl

/-- The send returned: the row catches up. -/
theorem Process.Synced.afterSend {cloid : Cloid} (nowNs : Nanos)
    (synced : process.Synced config (fun c => some cloid = some c))
    (row : (process.store.orders.get cloid).isSome = true) :
    (process.play (afterSend process.memory cloid nowNs).effects).Synced config
      (fun _ => False) := by
  obtain ⟨order, there⟩ := Option.isSome_iff_exists.mp (synced.orders.known cloid row)
  have keyed : order.cloid = cloid := synced.orders.cacheKeyed cloid order there
  simp only [Engine.afterSend, Cache.getOrder, there]
  refine ⟨(synced.orders.checkpoint order nowNs).weaken ?_, synced.ledger.writeOrder order nowNs⟩
  rintro c ⟨same, ne⟩
  cases same
  exact ne keyed.symm

theorem Process.Synced.onCancel (synced : process.Synced config stale) (deriveCloid : SignalId → Cloid)
    (signal : CancelSignal) :
    (process.play (onCancel deriveCloid process.memory signal nowNs).effects).Synced config stale := by
  simp only [Engine.onCancel]
  split
  · exact synced
  · split
    · exact synced
    · exact ⟨synced.orders.rewrite _ nowNs, synced.ledger.writeOrder _ nowNs⟩

/-- Sagas marked in place are stale until each is written. -/
theorem orderSync_foldl_remember {stale : Cloid → Prop} {cache : Cache} {store : Store}
    (sync : OrderSync stale cache store) (marked : List Order) :
    OrderSync (fun c => stale c ∨ c ∈ marked.map Order.cloid)
      (marked.foldl Cache.remember cache) store := by
  induction marked generalizing stale cache with
  | nil => exact sync.weaken fun c h => Or.inl h
  | cons order rest ih =>
      refine (ih (sync.remember order)).weaken ?_
      rintro c ((h | h) | h)
      · exact Or.inl h
      · exact Or.inr (h ▸ List.mem_cons_self)
      · exact Or.inr (List.mem_cons_of_mem _ h)

/-- Writing every stale saga leaves none stale. -/
theorem checkpointEach_synced (marked : List Order) :
    ∀ (process : Process) (memory : Memory),
      OrderSync (fun c => stale c ∨ c ∈ marked.map Order.cloid) memory.cache process.store →
      LedgerSync config memory.portfolio process.store →
      process.memory = memory →
      (process.play (checkpointEach memory nowNs marked)).Synced config stale := by
  induction marked with
  | nil =>
      intro process memory orders ledger held
      subst held
      exact ⟨orders.weaken fun c h => h.resolve_right List.not_mem_nil, ledger⟩
  | cons order rest ih =>
      intro process memory orders ledger held
      rw [checkpointEach, Process.play_append]
      refine ih _ _ ?_ (ledger.writeOrder order nowNs) rfl
      refine (orders.checkpoint order nowNs).weaken ?_
      rintro c ⟨h | member, ne⟩
      · exact Or.inl h
      · rcases List.mem_cons.mp member with same | later
        · exact absurd same ne
        · exact Or.inr later

theorem Process.Synced.announced {effects : List Effect} (process : Process)
    (synced : process.Synced config stale)
    (quiet : ∀ e ∈ effects, ∀ p : Process, (perform p e).memory = p.memory ∧
      (perform p e).store = p.store) : (process.play effects).Synced config stale := by
  induction effects generalizing process with
  | nil => exact synced
  | cons e rest ih =>
      obtain ⟨memory, store⟩ := quiet e List.mem_cons_self process
      refine ih (perform process e) ?_ fun e' member => quiet e' (List.mem_cons_of_mem _ member)
      exact ⟨by rw [memory, store]; exact synced.orders, by rw [memory, store]; exact synced.ledger⟩

theorem Process.Synced.onCancelAll (synced : process.Synced config stale) (signal : CancelAllSignal) :
    (process.play (onCancelAll process.memory signal nowNs).effects).Synced config stale := by
  simp only [Engine.onCancelAll]
  rw [Process.play_append, Process.play_append, Process.play_append]
  apply Process.Synced.announced
  · apply checkpointEach_synced _ _ _ _ _ rfl
    · exact orderSync_foldl_remember (synced.orders.raiseSeq signal.strategyId signal.seq) _
    · exact synced.ledger.raiseSeq signal.strategyId signal.seq
  · intro e member p
    split at member
    · cases member
    · rw [List.mem_singleton] at member
      subst member
      exact ⟨rfl, rfl⟩

theorem operatorMarks_synced (resting : List Resting) :
    ∀ process : Process, process.Synced config stale →
      (process.play (operatorMarks process.memory nowNs resting).1).Synced config stale := by
  induction resting with
  | nil => intro process synced; exact synced
  | cons named rest ih =>
      intro process synced
      cases named with
      | external symbol venueOid => exact ih process synced
      | ours cloid symbol venueOid =>
          simp only [operatorMarks]
          split
          · exact ih process synced
          · rename_i order _
            have rewritten := synced.rewrite (order.markOperatorCancel nowNs) nowNs
            exact ih _ rewritten

theorem Process.Synced.cancelForOperator (synced : process.Synced config stale)
    (resting : List Resting) :
    (process.play (cancelForOperator process.memory resting nowNs).effects).Synced config stale := by
  have marked : (process.play (operatorMarks process.memory nowNs resting).1).Synced config stale :=
    operatorMarks_synced resting process synced
  simp only [Engine.cancelForOperator, Process.play_append]
  exact ⟨marked.orders, marked.ledger⟩

theorem Process.Synced.onStatus (synced : process.Synced config stale) (report : OrderStatusReport) :
    (process.play (onStatus process.memory report nowNs).effects).Synced config stale := by
  simp only [Engine.onStatus]
  split
  · exact synced
  · split
    · exact synced
    · split
      · exact synced
      · split
        · exact synced
        · exact synced
        · exact ⟨synced.orders.rewrite _ nowNs, synced.ledger.writeOrder _ nowNs⟩

/-! ## Handlers that write the ledger -/

/-- What a committed fold is: the fold, one transaction, the projection. -/
theorem commitFolds_cases {memory : Memory} {order : Option Order}
    {pieces : List (BookableFill × Side)} {tsNs : Nanos} {effects : List Effect}
    (committed : commitFolds config memory order pieces tsNs = .ok effects) :
    ∃ folded changes, memory.portfolio.applyFills config pieces = .ok (folded, changes) ∧
      effects =
        [.memory { memory with portfolio := folded },
          .write (.checkpointLedger
            { account := folded.account
              positions := rowsOf folded changes
              order := order
              tsNs := tsNs }),
          .memory
            { cache := order.elim memory.cache fun order => memory.cache.project order tsNs
              portfolio := changes.foldl Portfolio.project folded }] := by
  simp only [commitFolds] at committed
  split at committed
  · cases committed
  · rename_i folded changes applied
    cases committed
    refine ⟨folded, changes, applied, ?_⟩
    cases order <;> rfl

/-- A fold, its transaction and its projection, played. -/
theorem play_fold (process : Process) (folded projected : Memory) (rows : LedgerTxn) :
    process.play [.memory folded, .write (.checkpointLedger rows), .memory projected] =
      { process with memory := projected, store := process.store.checkpointLedger rows } := rfl

/-- The same behind a saga advanced in place, with its announcement. -/
theorem play_fill (process : Process) (remembered folded projected : Memory) (rows : LedgerTxn)
    (event : OrderEvent) :
    process.play (.memory remembered ::
        [.memory folded, .write (.checkpointLedger rows), .memory projected] ++
        [.announce event]) =
      { process with
        memory := projected
        store := process.store.checkpointLedger rows
        announced := process.announced ++ [event] } := rfl

/-- A fold's rows keep the ledger in sync. -/
theorem LedgerSync.commitFolds {portfolio folded : Portfolio} {store : Store}
    {pieces : List (BookableFill × Side)} {changes : List LedgerChange} {rows : LedgerTxn}
    (sync : LedgerSync config portfolio store)
    (applied : portfolio.applyFills config pieces = .ok (folded, changes))
    (account : rows.account = folded.account) (positions : rows.positions = rowsOf folded changes) :
    LedgerSync config (changes.foldl Portfolio.project folded) (store.checkpointLedger rows) := by
  have fold := applyFills_folded sync.filed applied
  apply sync.ledger
  · rw [project_account]; exact account
  · rw [project_account]; exact fold.identity
  · rw [positions]
    intro position member
    obtain ⟨change, there, rfl⟩ := List.mem_map.mp member
    exact fold.current_settled there
  · rw [positions]; exact fold.moved

/-- **A fill leaves both read-models in sync**: its order row and its ledger rows
are one transaction. -/
theorem Process.Synced.onFill (synced : process.Synced config stale) (report : FillReport)
    (clean : (onFill config process.memory process.store report nowNs).fault = none) :
    (process.play
      (onFill config process.memory process.store report nowNs).effects).Synced config stale := by
  simp only [Engine.onFill] at clean ⊢
  split
  · exact synced
  · rename_i order there
    simp only [there] at clean
    split
    · exact synced
    · exact synced
    · rename_i advanced event recorded
      simp only [recorded] at clean
      split
      · rename_i faulted
        simp only [faulted] at clean
        cases clean
      · rename_i effects committed
        simp only [checkpointFill] at committed
        split at committed
        · cases committed
        · split at committed
          · cases committed
          · obtain ⟨folded, changes, applied, rfl⟩ := commitFolds_cases committed
            rw [play_fill]
            constructor
            · have written : OrderSync _ _ (process.store.checkpointLedger
                  { account := folded.account
                    positions := rowsOf folded changes
                    order := some advanced
                    tsNs := nowNs }) :=
                (synced.orders.remember advanced).ledgerOrder rfl nowNs
              exact written.weaken fun c h => h.1.elim id fun same => absurd same h.2
            · dsimp only
              apply synced.ledger.commitFolds applied <;> rfl

theorem Process.Synced.checkpointLeftover (synced : process.Synced config stale) {symbol : Symbol}
    {effects : List Effect}
    (moved : checkpointLeftover config process.memory symbol nowNs = .ok effects) :
    (process.play effects).Synced config stale := by
  simp only [Engine.checkpointLeftover] at moved
  split at moved
  · cases moved; exact synced
  · obtain ⟨folded, changes, applied, rfl⟩ := commitFolds_cases moved
    rw [play_fold]
    constructor <;> dsimp only
    · apply synced.orders.ledger
      rfl
    · apply synced.ledger.commitFolds applied <;> rfl

/-! ## Heals -/

/-- What the collateral ingest leaves: the named buckets moved, nothing else. -/
structure Posted (portfolio after : Portfolio) (keys : List PartitionKey) : Prop where
  account : after.account = portfolio.account
  filed : Filed after.positions
  same : ∀ k, (after.positions.get k).isSome = (portfolio.positions.get k).isSome
  off : ∀ k, k ∉ keys → after.positions.get k = portfolio.positions.get k

theorem Posted.postShare {portfolio : Portfolio} {state : Portfolio × List PartitionKey}
    (posted : Posted portfolio state.1 state.2) (carried : Symbol → Bool) {share : Position × Decimal}
    (held : ∃ k, portfolio.positions.get k = some share.1) (filed : Filed portfolio.positions) :
    Posted portfolio (Portfolio.postShare carried state share).1
      (Portfolio.postShare carried state share).2 := by
  simp only [Portfolio.postShare]
  split
  · exact posted
  · split
    · exact posted
    · obtain ⟨k, there⟩ := held
      obtain ⟨keyed, settled⟩ := filed k share.1 there
      have moved : Position.Settled { share.1 with isolatedCollateral := some share.2 } := settled
      refine ⟨posted.account, posted.filed.set moved, ?_, ?_⟩
      · intro j
        rw [Dict.get_set]
        split
        · rename_i here
          rw [← here, keyed, there]
          rfl
        · exact posted.same j
      · intro j absent
        rw [List.mem_append, not_or, List.mem_singleton] at absent
        rw [Dict.get_set_ne _ _ (Ne.symm absent.2)]
        exact posted.off j absent.1

theorem ingestCollateral_posted {portfolio : Portfolio} (snapshot : VenueAccountState)
    (filed : Filed portfolio.positions) :
    Posted portfolio (portfolio.ingestCollateral snapshot).1
      (portfolio.ingestCollateral snapshot).2 := by
  simp only [Portfolio.ingestCollateral]
  have held : ∀ share ∈ portfolio.venueShares snapshot,
      ∃ k, portfolio.positions.get k = some share.1 := by
    intro share member
    simp only [Portfolio.venueShares, List.mem_flatMap] at member
    obtain ⟨symbol, _, zipped⟩ := member
    have across := (List.of_mem_zip zipped).1
    simp only [Portfolio.across, List.mem_filter] at across
    exact (Dict.mem_values _ _).mp across.1
  have start : Posted portfolio portfolio [] := ⟨rfl, filed, fun _ => rfl, fun _ _ => rfl⟩
  generalize (fun symbol => decide
    (Portfolio.venueSize snapshot symbol = portfolio.accountNet symbol)) = carried
  generalize portfolio.venueShares snapshot = shares at held
  generalize hstate : ((portfolio, []) : Portfolio × List PartitionKey) = state
  have posted : Posted portfolio state.1 state.2 := by rw [← hstate]; exact start
  clear hstate
  induction shares generalizing state with
  | nil => exact posted
  | cons share rest ih =>
      exact ih (fun s member => held s (List.mem_cons_of_mem _ member)) _
        (posted.postShare carried (held share List.mem_cons_self) filed)

/-- What one cycle's heal is: the folded fills, then the posted buckets, then at
most a new cash line. -/
theorem applyHeal_cases {portfolio healed : Portfolio} {fills : List ReconciliationFill}
    {cash : Option CashCorrection} {snapshot : Option VenueAccountState} {change : HealChange}
    (filed : Filed portfolio.positions)
    (heal : portfolio.applyHeal config fills cash snapshot = .ok (some (healed, change))) :
    ∃ folded, Folded portfolio folded change.fills ∧
      healed.account.identity = portfolio.account.identity ∧
      Posted { folded with account := healed.account } healed change.collateral := by
  simp only [Portfolio.applyHeal] at heal
  split at heal
  · cases heal
  · rename_i folded changes applied
    have fold := applyFills_folded filed applied
    have posted : Posted folded (folded.ingest snapshot).1 (folded.ingest snapshot).2 := by
      cases snapshot with
      | none => exact ⟨rfl, fold.filed, fun _ => rfl, fun _ _ => rfl⟩
      | some state => exact ingestCollateral_posted state fold.filed
    split at heal
    · cases heal
    · simp only [Except.ok.injEq, Option.some.injEq, Prod.mk.injEq] at heal
      obtain ⟨rfl, rfl⟩ := heal
      cases cash with
      | none =>
          refine ⟨folded, fold, ?_, rfl, posted.filed, posted.same, posted.off⟩
          rw [Portfolio.correct, posted.account]
          exact fold.identity
      | some correction =>
          refine ⟨folded, fold, ?_, rfl, posted.filed, posted.same, posted.off⟩
          rw [Portfolio.correct, Account.correctCash_identity, posted.account]
          exact fold.identity

/-- A partition beside its key, as a row is written. -/
def keyed (position : Position) : PartitionKey × Position := (keyOf position, position)

theorem filterMap_keyed {positions : Dict PartitionKey Position} (filed : Filed positions)
    (keys : List PartitionKey) :
    (keys.filterMap positions.get).map keyed =
      keys.filterMap fun k => (positions.get k).map fun position => (k, position) := by
  induction keys with
  | nil => rfl
  | cons k rest ih =>
      simp only [List.filterMap_cons]
      cases there : positions.get k with
      | none => exact ih
      | some position =>
          simp only [List.map_cons, Option.map_some, ih, keyed, (filed k position there).1]

/-- The rows of a keyed batch, deduplicated by key, write what the batch writes. -/
theorem setAll_values_keyed (positions : Dict PartitionKey Position) {rows : List Position}
    (settled : ∀ position ∈ rows, position.Settled) :
    (positions.setAll ((Dict.empty.setAll (rows.map keyed)).values.map keyed)).Same
      (positions.setAll (rows.map keyed)) := by
  have filed : Filed (Dict.empty.setAll (rows.map keyed)) :=
    Filed.empty.setAll settled
  have entries : (Dict.empty.setAll (rows.map keyed)).values.map keyed =
      (Dict.empty.setAll (rows.map keyed)).entries := by
    rw [Dict.values, List.map_map]
    refine (List.map_congr_left ?_).trans (List.map_id _)
    rintro ⟨k, position⟩ member
    have keyedBy := (filed k position ((Dict.get_eq_some _ _ _).mpr member)).1
    simp only [Function.comp_apply, keyed, keyedBy, id_eq]
  intro k
  rw [entries, Dict.get_setAll_entries, Dict.get_setAll positions]

/-- **A heal leaves both read-models in sync**: its rows are the union of what
the fills and the ingest moved. -/
theorem Process.Synced.checkpointHeal (synced : process.Synced config stale)
    {fills : List ReconciliationFill} {cash : Option CashCorrection}
    {snapshot : Option VenueAccountState} {effects : List Effect}
    (healed : checkpointHeal config process.memory process.store fills cash snapshot nowNs =
      .ok effects) : (process.play effects).Synced config stale := by
  simp only [Engine.checkpointHeal] at healed
  split at healed
  · cases healed
  · split at healed
    · cases healed
    · cases healed; exact synced
    · rename_i after change heal
      cases healed
      rw [play_fold]
      obtain ⟨folded, fold, identity, posted⟩ := applyHeal_cases synced.ledger.filed heal
      have awaiting : Awaiting after change.fills :=
        ⟨posted.filed, fold.settled, fun c member => by rw [fold.held c member, posted.same]⟩
      have same : ∀ k, (after.positions.get k).isSome =
          (process.memory.portfolio.positions.get k).isSome :=
        fun k => (posted.same k).trans (fold.same k)
      -- The rows as one list, before they are deduplicated by key.
      let rows := rowsOf after change.fills ++ change.collateral.filterMap after.positions.get
      have settled : ∀ position ∈ rows, position.Settled := by
        intro position member
        rcases List.mem_append.mp member with fromFill | fromIngest
        · obtain ⟨c, there, rfl⟩ := List.mem_map.mp fromFill
          exact awaiting.current_settled there
        · obtain ⟨k, _, there⟩ := List.mem_filterMap.mp fromIngest
          exact (posted.filed k position there).2
      have pairs : (change.fills.map fun fill => (fill.key, fill.current after)) ++
          (change.collateral.filterMap fun key =>
            (after.positions.get key).map fun position => (key, position)) =
          rows.map keyed := by
        rw [List.map_append, filterMap_keyed posted.filed, rowsOf, List.map_map]
        congr 1
        apply List.map_congr_left
        intro c _
        simp only [Function.comp_apply, keyed, awaiting.current_key]
      have moved : (change.fills.foldl Portfolio.project after).positions.Same
          (process.memory.portfolio.positions.setAll (rows.map keyed)) := by
        intro k
        rw [awaiting.project, List.map_append, Dict.setAll_append, filterMap_keyed posted.filed,
          Dict.get_setAll_lookup]
        have named := awaiting.rowsOf_key
        by_cases inFills : k ∈ change.fills.map LedgerChange.key
        · have both : (after.positions.setAll ((rowsOf after change.fills).map keyed)).get k =
              (process.memory.portfolio.positions.setAll
                ((rowsOf after change.fills).map keyed)).get k := by
            apply Dict.get_setAll_of_mem
            rw [← named] at inFills
            exact inFills
          split
          · cases there : after.positions.get k with
            | none => exact both
            | some position =>
                rw [Option.some_or]
                apply Dict.get_setAll_const _ there
                intro pair member keyedBy
                obtain ⟨row, rowMember, rfl⟩ := List.mem_map.mp member
                obtain ⟨c, changeMember, rfl⟩ := List.mem_map.mp rowMember
                have key : c.key = k := (awaiting.current_key c).symm.trans keyedBy
                have filed : c.filed = true := by
                  rw [awaiting.held c changeMember, key, there]
                  rfl
                have current := awaiting.current_filed changeMember filed
                rw [key, there] at current
                exact (Option.some.inj current).symm
          · exact both
        · have off : ∀ d : Dict PartitionKey Position,
              (d.setAll ((rowsOf after change.fills).map keyed)).get k = d.get k := by
            intro d
            apply Dict.get_setAll_of_not_mem
            rw [← named] at inFills
            exact inFills
          rw [off]
          have alone : (after.positions.setAll ((rowsOf after change.fills).map keyed)).get k =
              after.positions.get k := off after.positions
          refine alone.trans ?_
          split
          · cases there : after.positions.get k with
            | some position => rfl
            | none =>
                have gone := same k
                rw [there] at gone
                cases here : process.memory.portfolio.positions.get k with
                | none => rfl
                | some position => rw [here] at gone; cases gone
          · rename_i outside
            rw [posted.off k outside]
            exact fold.off k inFills
      constructor <;> dsimp only
      · apply synced.orders.ledger
        rfl
      · rw [pairs]
        apply synced.ledger.ledger
        · dsimp only; rw [project_account]
        · rw [project_account]; exact identity
        · intro position member
          obtain ⟨k, there⟩ := (Dict.mem_values _ _).mp member
          have filed : Filed (Dict.empty.setAll (rows.map keyed)) :=
            Filed.empty.setAll settled
          exact (filed k position there).2
        · exact moved.trans (setAll_values_keyed _ settled).symm

/-! ## Funding -/

/-- An accrual moves the funding line of the partitions it splits across, and no
other field. -/
theorem mem_splitAccrual {amount : Decimal} {across : List Position} {position : Position}
    (member : position ∈ Portfolio.splitAccrual amount across) :
    ∃ held ∈ across, ∃ funding, position = { held with funding := funding } := by
  simp only [Portfolio.splitAccrual] at member
  split at member
  · exact ⟨position, member, position.funding, rfl⟩
  · obtain ⟨pair, zipped, rfl⟩ := List.mem_map.mp member
    exact ⟨pair.1, (List.of_mem_zip zipped).1, _, rfl⟩

/-- A fold and its transaction, played: an accrual files nothing new. -/
theorem play_accrual (process : Process) (folded : Memory) (rows : LedgerTxn) :
    process.play [.memory folded, .write (.checkpointLedger rows)] =
      { process with memory := folded, store := process.store.checkpointLedger rows } := rfl

theorem Process.Synced.checkpointFunding (synced : process.Synced config stale)
    {accrual : FundingAccrual} {effects : List Effect}
    (accrued : checkpointFunding process.memory process.store accrual nowNs = .ok effects) :
    (process.play effects).Synced config stale := by
  simp only [Engine.checkpointFunding] at accrued
  split at accrued
  · cases accrued
  · split at accrued
    · cases accrued; exact synced
    · rename_i folded change fold
      cases accrued
      simp only [Portfolio.applyFunding] at fold
      split at fold
      · cases fold
      · split at fold
        · cases fold
        · cases fold
          generalize hexposed : ((process.memory.portfolio.across accrual.symbol).filter
            fun position => !position.isFlat) = exposed
          generalize hrows : Portfolio.splitAccrual accrual.amount exposed = accruedRows
          have settled : ∀ position ∈ accruedRows, position.Settled := by
            intro position member
            rw [← hrows] at member
            obtain ⟨held, there, funding, rfl⟩ := mem_splitAccrual member
            rw [← hexposed] at there
            have value := List.mem_of_mem_filter (List.mem_of_mem_filter there)
            obtain ⟨k, filed⟩ := (Dict.mem_values _ _).mp value
            exact (synced.ledger.filed k held filed).2
          have filed : Filed (process.memory.portfolio.positions.setAll
              (accruedRows.map keyed)) := synced.ledger.filed.setAll settled
          rw [play_accrual]
          constructor <;> dsimp only
          · apply synced.orders.ledger
            rfl
          · apply synced.ledger.ledger
            · rfl
            · rfl
            · intro position member
              obtain ⟨k, _, there⟩ := List.mem_filterMap.mp member
              exact (filed k position there).2
            · intro k
              change (process.memory.portfolio.positions.setAll (accruedRows.map keyed)).get k =
                (process.memory.portfolio.positions.setAll
                  (((accruedRows.map keyOf).filterMap (process.memory.portfolio.positions.setAll
                    (accruedRows.map keyed)).get).map keyed)).get k
              rw [filterMap_keyed filed, Dict.get_setAll_lookup]
              have named : (accruedRows.map keyed).map Prod.fst = accruedRows.map keyOf := by
                rw [List.map_map]; rfl
              split
              · rename_i here
                rw [Dict.get_setAll process.memory.portfolio.positions]
                cases (Dict.empty.setAll (accruedRows.map keyed)).get k with
                | some position => rfl
                | none => simp
              · rename_i absent
                rw [← named] at absent
                exact Dict.get_setAll_of_not_mem absent

/-! ## Recovery -/

/-- A partition without its process-lifetime dedup set. -/
def forget (position : Position) : Position := { position with appliedEventIds := ∅ }

/-- What a recovery must agree on with the life it replaces: every order whole,
every partition but its dedup set, the account, and the seqs consumed. -/
structure Agrees (recovered live : Memory) : Prop where
  orders : recovered.cache.orders.Same live.cache.orders
  account : recovered.portfolio.account = live.portfolio.account
  positions : recovered.portfolio.positions.Same (live.portfolio.positions.map forget)
  seqHighWater : ∀ s, recovered.cache.seqHighWater s = live.cache.seqHighWater s

/-- The seq high water reads the sagas, not their order. -/
theorem seqHighWater_congr {cache cache' : Cache} (orders : cache.orders.Same cache'.orders)
    (seqs : ∀ s, (cache.seqRecords.get s).getD 0 = (cache'.seqRecords.get s).getD 0)
    (strategyId : StrategyId) :
    cache.seqHighWater strategyId = cache'.seqHighWater strategyId := by
  have values : cache.orders.values.Perm cache'.orders.values := orders.perm.map _
  simp only [Cache.seqHighWater, seqs strategyId]
  apply List.Perm.foldl_eq' ((values.filter _).map _)
  intro a _ b _ c
  exact max_right_comm c a b

theorem durable_durable (position : Position) : position.durable.durable = position.durable := by
  rw [(Position.durable_settled position).durable_eq]
  rfl

/-- A partition as a row keeps it, when it is settled. -/
theorem Filed.map_durable {positions : Dict PartitionKey Position} (filed : Filed positions) :
    (positions.map Position.durable).Same (positions.map forget) := by
  intro k
  rw [Dict.get_map, Dict.get_map]
  cases there : positions.get k with
  | none => rfl
  | some position =>
      rw [Option.map_some, Option.map_some, (filed k position there).2.durable_eq]
      rfl

/-- Rows a recovery accepts: an open ledger this run may trade, every row under
its own key, and every position row as a row keeps it. -/
structure Sound (config : Config) (store : Store) : Prop where
  account : ∃ account, store.account = some account
  tradable : refuseDisagreement config store = none
  orders : ∀ c order, store.orders.get c = some order → order.cloid = c
  positions : ∀ k position, store.positions.get k = some position →
    keyOf position = k ∧ position.durable = position

/-- **No transaction makes the rows unsound**, so no crash point does. -/
theorem Sound.commit {store : Store} (sound : Sound config store) (txn : Txn) :
    Sound config (store.commit txn) := by
  obtain ⟨stored, there⟩ := sound.account
  obtain ⟨account, written, identity⟩ := Store.account_identity_kept txn there
  refine ⟨⟨account, written⟩, ?_, ?_, ?_⟩
  · rw [refuseDisagreement_of_identity there written identity]
    exact sound.tradable
  · cases txn with
    | checkpoint order tsNs => exact OrderSync.keyed_set sound.orders
    | checkpointLedger rows =>
        simp only [Store.commit, Store.checkpointLedger_orders]
        cases rows.order with
        | none => exact sound.orders
        | some order => exact OrderSync.keyed_set sound.orders
    | raiseSeq strategyId seq =>
        simp only [Store.commit, Store.raiseSeq_orders]
        exact sound.orders
  · cases txn with
    | checkpoint order tsNs => exact sound.positions
    | checkpointLedger rows =>
        intro k position here
        simp only [Store.commit, Store.checkpointLedger_positions] at here
        revert here
        generalize store.positions = positions, sound.positions = kept
        induction rows.positions generalizing positions with
        | nil => exact kept k position
        | cons row rest ih =>
            rw [List.map_cons, Dict.setAll_cons]
            apply ih
            intro j p here
            rw [Dict.get_set] at here
            split at here
            · rename_i same
              cases here
              exact ⟨same, durable_durable row⟩
            · exact kept j p here
    | raiseSeq strategyId seq =>
        simp only [Store.commit, Store.raiseSeq_positions]
        exact sound.positions

theorem Process.Synced.sound (synced : process.Synced config stale) :
    Sound config process.store := by
  refine ⟨⟨_, synced.ledger.account⟩, synced.ledger.tradable, synced.orders.rowsKeyed, ?_⟩
  intro k position there
  rw [← synced.ledger.positions k, Dict.get_map] at there
  obtain ⟨live, held, rfl⟩ := Option.map_eq_some_iff.mp there
  exact ⟨(synced.ledger.filed k live held).1, durable_durable live⟩

/-- Effects touch the rows only through transactions. -/
theorem Sound.perform (sound : Sound config process.store) (effect : Effect) :
    Sound config (perform process effect).store := by
  cases effect with
  | write txn => exact sound.commit txn
  | memory _ | announce _ | place _ | cancel _ => exact sound

/-- **Recovery over sound rows** is allowed, writes nothing, and is in sync. -/
theorem recover_of_sound (sound : Sound config process.store) (tsNs : Nanos) :
    ∃ memory, recover config process.store tsNs = .ok (memory, []) ∧
      Process.Synced config (fun _ => False) { process with memory := memory } := by
  obtain ⟨account, there⟩ := sound.account
  have arranged : ∀ k, (process.store.positions.arrange keyLe).get k =
      process.store.positions.get k := Dict.arrange_same keyLe process.store.positions
  refine ⟨_, recover_of_account there sound.tradable tsNs, ?_, ?_⟩
  · have orders : (Cache.rebuild process.store).orders.Same process.store.orders :=
      Dict.arrange_same _ _
    refine ⟨fun c _ => orders c, fun c row => (congrArg Option.isSome (orders c)).trans row,
      ?_, sound.orders,
      fun _ => rfl⟩
    intro c order here
    exact sound.orders c order ((orders c).symm.trans here)
  · refine ⟨there, sound.tradable, ?_, ?_⟩
    · intro k position here
      obtain ⟨keyedBy, kept⟩ := sound.positions k position ((arranged k).symm.trans here)
      exact ⟨keyedBy, kept ▸ Position.durable_settled position⟩
    · intro k
      rw [Dict.get_map]
      dsimp only [rebuilt]
      rw [arranged k]
      cases here : process.store.positions.get k with
      | none => rfl
      | some position => rw [Option.map_some, (sound.positions k position here).2]

/-- **A recovery agrees with the life it replaces** when nothing is stale. -/
theorem agrees_of_synced {recovered : Memory} {tsNs : Nanos} {txns : List Txn}
    (synced : process.Synced config (fun _ => False))
    (recovery : recover config process.store tsNs = .ok (recovered, txns)) :
    Agrees recovered process.memory := by
  rw [recover_of_account synced.ledger.account synced.ledger.tradable] at recovery
  cases recovery
  have orders : (process.store.orders.arrange (· ≤ ·)).Same process.memory.cache.orders :=
    fun c => (Dict.arrange_same _ _ c).trans (synced.orders.orders c id).symm
  refine ⟨orders, rfl, ?_, seqHighWater_congr orders fun s => (synced.orders.seqs s).symm⟩
  exact (Dict.arrange_same keyLe _).trans
    (synced.ledger.positions.symm.trans synced.ledger.filed.map_durable)

end Tickwright.Engine
