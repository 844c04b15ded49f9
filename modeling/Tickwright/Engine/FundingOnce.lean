/-
# Engine.FundingOnce -- every settled boundary is paid exactly once

A funding payment reaches the ledger as often as the venue re-delivers it.  Two
gates decide: the genesis instant, which the opening cash already covers, and
the symbol's durable mark, which one transaction raises beside the cash it
guards.  `Theory.Watermark` says what a mark can tell; here it meets the rows.

* `Funded log store` is the statement about rows: the cash line is genesis, the
  partitions' gains and the counted payments, and each mark is the highest
  boundary counted;
* fills move cash and gains together, so they keep it (`onFill_funded`), and a
  delivery keeps it with itself on the log (`checkpointFunding_funded`);
* `run_funded` carries it over every run, with crashes anywhere, and says what
  the next delivery does to the partitions' own lines.
-/
import Tickwright.Engine.NetCash
import Tickwright.Engine.FillAccounting
import Tickwright.Theory.Watermark

namespace Tickwright.Engine

open Tickwright.Domain Tickwright.Theory Tickwright.Store

set_option autoImplicit false

/-! ## What the rows say -/

/-- Deliveries of one life after another, newest first. -/
abbrev FundingLog := List FundingAccrual

/-- The payments the ledger owes, each once: past the genesis instant, at its
first delivery. -/
def counted (genesisNs : Nanos) (log : FundingLog) : FundingLog :=
  Watermark.firsts FundingAccrual.symbol FundingAccrual.boundaryTsNs genesisNs log

/-- The payment is past the genesis instant, and new. -/
def Counts (genesisNs : Nanos) (log : FundingLog) (accrual : FundingAccrual) : Prop :=
  Watermark.Counts FundingAccrual.symbol FundingAccrual.boundaryTsNs genesisNs log accrual

/-- Each symbol's boundaries come in order, re-deliveries aside. -/
def BoundariesInOrder (log : FundingLog) : Prop :=
  Watermark.InOrder FundingAccrual.symbol FundingAccrual.boundaryTsNs log

/-- The boundaries of one symbol that were counted. -/
def boundariesOf (genesisNs : Nanos) (log : FundingLog) (symbol : Symbol) : List Nanos :=
  Watermark.stampsOf FundingAccrual.symbol FundingAccrual.boundaryTsNs genesisNs log symbol

/-- The funding lines of one symbol's partitions. -/
def fundingOn (positions : Dict PartitionKey Position) (symbol : Symbol) : Decimal :=
  positions.sum fun position => if position.symbol = symbol then position.funding else 0

/-- **The rows hold every counted payment once.** -/
structure Funded (genesisNs : Nanos) (log : FundingLog) (store : Store) : Prop where
  cash : ∃ account, store.account = some account ∧ account.genesisTsNs = genesisNs ∧
    account.cash = account.genesisCollateral + store.positions.sum Position.gain +
      ((counted genesisNs log).map FundingAccrual.amount).sum
  marks : ∀ symbol, Watermark.Highest (store.fundingMarks.get symbol)
    (boundariesOf genesisNs log symbol)
  /-- A flatten order names no partition twice. -/
  owners : ∀ c order, store.orders.get c = some order → ∀ basis,
    order.splitBasis = some basis → (basis.map Prod.fst).Nodup

/-! ## What an accrual does to the partitions -/

section Accrual

variable {portfolio : Portfolio} {symbol : Symbol}

theorem sum_shareOut (total weight : Decimal) {weights : List Decimal} (some_ : weights ≠ []) :
    (Portfolio.shareOut total weight weights).sum = total := by
  cases weights with
  | nil => exact absurd rfl some_
  | cons first rest =>
      unfold Portfolio.shareOut
      simp only [List.sum_append, List.sum_singleton]
      ring

theorem length_shareOut (total weight : Decimal) (weights : List Decimal) :
    (Portfolio.shareOut total weight weights).length = weights.length := by
  cases weights with
  | nil => rfl
  | cons first rest =>
      unfold Portfolio.shareOut
      simp only [List.length_append, List.length_map, List.length_dropLast, List.length_singleton]
      simp

/-- The partitions an accrual is split across. -/
def exposed (portfolio : Portfolio) (symbol : Symbol) : List Position :=
  (portfolio.across symbol).filter fun position => !position.isFlat

theorem exposed_net (portfolio : Portfolio) (symbol : Symbol) :
    ((exposed portfolio symbol).map Position.signedSize).sum = portfolio.accountNet symbol := by
  unfold exposed Portfolio.accountNet Portfolio.across
  generalize portfolio.positions.values.filter (fun position => decide (position.symbol = symbol)) =
    across
  induction across with
  | nil => rfl
  | cons position rest ih =>
      rw [List.map_cons, List.sum_cons, ← ih]
      by_cases flat : position.signedSize = 0
      · rw [List.filter_cons_of_neg (by simp [Position.isFlat, flat]), flat, zero_add]
      · rw [List.filter_cons_of_pos (by simp [Position.isFlat, flat]), List.map_cons, List.sum_cons]

/-- A split accrual is one share for each partition it is split across, and the
shares are the whole of it unless their net is nothing. -/
theorem splitAccrual_shares (amount : Decimal) (across : List Position) :
    ∃ shares : List Decimal, shares.length = across.length ∧
      Portfolio.splitAccrual amount across =
        List.zipWith Position.accrueFunding across shares ∧
      ((across.map Position.signedSize).sum ≠ 0 → shares.sum = amount) := by
  unfold Portfolio.splitAccrual
  simp only
  split
  · rename_i whole
    refine ⟨across.map fun _ => 0, List.length_map _, ?_, ?_⟩
    · clear whole
      induction across with
      | nil => rfl
      | cons position rest ih =>
          rw [List.map_cons, List.zipWith_cons_cons, ← ih]
          congr 1
          unfold Position.accrueFunding
          rw [add_zero]
    · intro net
      rcases (Bool.or_eq_true _ _).mp whole with empty | none_
      · rw [List.isEmpty_iff.mp empty] at net
        exact absurd rfl net
      · exact absurd (of_decide_eq_true none_) net
  · rename_i split_
    refine ⟨Portfolio.shareOut amount (across.map Position.signedSize).sum
      (across.map Position.signedSize), ?_, ?_, ?_⟩
    · rw [length_shareOut, List.length_map]
    · rw [List.zip_eq_zipWith, List.map_zipWith]
    · intro _
      apply sum_shareOut
      intro empty
      apply split_
      rw [List.map_eq_nil_iff.mp empty]
      rfl

/-- **What an accrual adds to any quantity of the partitions**: what its shares
add, one for each partition it is split across. -/
theorem accrual_sum (filed : Filed portfolio.positions) {shares : List Decimal}
    (long : shares.length = (exposed portfolio symbol).length) {f : Position → Decimal}
    {g : Decimal → Decimal}
    (moves : ∀ position ∈ exposed portfolio symbol, ∀ share,
      f (position.accrueFunding share) = f position + g share) :
    (portfolio.positions.setAll
        ((List.zipWith Position.accrueFunding (exposed portfolio symbol) shares).map
          fun position => (keyOf position, position))).sum f =
      portfolio.positions.sum f + (shares.map g).sum := by
  have values : ∀ position ∈ exposed portfolio symbol, position ∈ portfolio.positions.values :=
    fun position member => List.mem_of_mem_filter (List.mem_of_mem_filter member)
  have keys : ∀ (across : List Position) (shares : List Decimal), shares.length = across.length →
      ((List.zipWith Position.accrueFunding across shares).map fun position =>
        (keyOf position, position)).map Prod.fst = across.map keyOf := by
    intro across
    induction across with
    | nil => intro shares _; rfl
    | cons position rest ih =>
        intro shares long
        cases shares with
        | nil => cases long
        | cons share more =>
            rw [List.zipWith_cons_cons, List.map_cons, List.map_cons, List.map_cons,
              ih more (Nat.succ.inj long)]
            rfl
  have nodup : ((exposed portfolio symbol).map keyOf).Nodup :=
    filed.keys_nodup.sublist ((List.filter_sublist.trans List.filter_sublist).map _)
  rw [Dict.sum_setAll _ _ (by rw [keys _ _ long]; exact nodup)]
  congr 1
  rw [List.map_map]
  -- Each pair replaces the record it advanced.
  clear keys nodup
  generalize exposed portfolio symbol = across at long moves values
  induction across generalizing shares with
  | nil =>
      rw [List.length_eq_zero_iff.mp long]
      rfl
  | cons position rest ih =>
      cases shares with
      | nil => cases long
      | cons share more =>
          rw [List.zipWith_cons_cons, List.map_cons, List.map_cons, List.sum_cons, List.sum_cons,
            ih (Nat.succ.inj long) (fun p member => moves p (List.mem_cons_of_mem _ member))
              (fun p member => values p (List.mem_cons_of_mem _ member))]
          congr 1
          have there := filed.get_of_mem (values position List.mem_cons_self)
          have same : keyOf (position.accrueFunding share) = keyOf position := rfl
          simp only [Function.comp_apply, same, there, Option.elim_some,
            moves position List.mem_cons_self share]
          ring

end Accrual

/-! ## Rows and memory -/

/-- A saga and what its handlers make of it split over the same partitions. -/
def SameBasis (row order : Order) : Prop := order.splitBasis = row.splitBasis

theorem sameBasis_succession : Succession SameBasis where
  refl _ := rfl
  trans first second := second.trans first
  marked same := by
    have terms := same.terms
    simp only [Prod.mk.injEq] at terms
    exact terms.2.2.2.2.2.1
  entered _ _ _ := rfl

/-- A saga opens over no partition twice. -/
def OwnersOnce (order : Order) : Prop :=
  ∀ basis, order.splitBasis = some basis → (basis.map Prod.fst).Nodup

/-- The rows are funded, and every cached saga splits as its row does. -/
structure Paying (genesisNs : Nanos) (log : FundingLog) (process : Process) : Prop where
  funded : Funded genesisNs log process.store
  linked : Linked SameBasis process.memory.cache process.store

section Rows

variable {genesisNs : Nanos} {log : FundingLog} {config : Config}

/-- Rows that only some saga was rewritten in are funded as they were. -/
theorem Funded.frame {store after : Store} (funded : Funded genesisNs log store)
    (account : after.account = store.account) (positions : after.positions = store.positions)
    (marks : after.fundingMarks = store.fundingMarks)
    (owners : ∀ c order, after.orders.get c = some order → OwnersOnce order) :
    Funded genesisNs log after where
  cash := by
    rw [account, positions]
    exact funded.cash
  marks := by
    rw [marks]
    exact funded.marks
  owners := owners

/-- **A quiet step keeps the rows funded.** -/
theorem quiet_paying {process : Process} {effect : Effect}
    (quiet : Quiet SameBasis OwnersOnce (fun _ _ => True) process effect)
    (paying : Paying genesisNs log process) : Paying genesisNs log (perform process effect) := by
  cases effect with
  | memory memory => exact ⟨paying.funded, quiet.2⟩
  | write txn =>
      cases txn with
      | checkpoint order tsNs =>
          refine ⟨paying.funded.frame rfl rfl rfl ?_, ?_⟩
          · intro c row there
            have there : (process.store.orders.set order.cloid order).get c = some row := there
            rw [Dict.get_set] at there
            split at there
            · cases there
              cases before : process.store.orders.get order.cloid with
              | none => exact quiet.opens before
              | some old =>
                  intro basis is
                  rw [quiet.row old before] at is
                  exact paying.funded.owners _ old before basis is
            · exact paying.funded.owners c row there
          · intro c cached row held there
            have there : (process.store.orders.set order.cloid order).get c = some row := there
            rw [Dict.get_set] at there
            split at there
            · rename_i here
              cases there
              subst here
              exact quiet.held cached held
            · exact paying.linked c cached row held there
      | raiseSeq strategyId seq =>
          have rows := process.store.raiseSeq_orders strategyId seq
          obtain ⟨seqRecords, is⟩ := process.store.raiseSeq_eq strategyId seq
          refine ⟨paying.funded.frame (process.store.raiseSeq_account strategyId seq)
            (process.store.raiseSeq_positions strategyId seq) ?_ ?_, ?_⟩
          · show (process.store.raiseSeq strategyId seq).fundingMarks = _
            rw [is]
          · show ∀ c order, (process.store.raiseSeq strategyId seq).orders.get c = some order → _
            rw [rows]
            exact paying.funded.owners
          · show Linked SameBasis process.memory.cache (process.store.raiseSeq strategyId seq)
            unfold Linked
            rw [rows]
            exact paying.linked
      | checkpointLedger rows => exact quiet.elim
  | announce _ | place _ | cancel _ => exact ⟨paying.funded, paying.linked⟩

/-- What a row keeps of a partition it keeps in every sum over the ledger. -/
theorem LedgerSync.sum_eq {portfolio : Portfolio} {store : Store}
    (sync : LedgerSync config portfolio store) {f : Position → Decimal}
    (kept : ∀ position, f position.durable = f position) :
    store.positions.sum f = portfolio.positions.sum f := by
  rw [← sync.positions.sum_eq]
  unfold Dict.sum
  rw [Dict.values_map, List.map_map]
  congr 1
  apply List.map_congr_left
  intro position _
  exact kept position

/-- Rows in sync with a ledger whose cash is accounted. -/
theorem funded_cash {portfolio : Portfolio} {store : Store}
    (sync : LedgerSync config portfolio store)
    (genesis : portfolio.account.genesisTsNs = genesisNs)
    (cash : portfolio.account.cash - portfolio.positions.sum Position.gain =
      portfolio.account.genesisCollateral + ((counted genesisNs log).map FundingAccrual.amount).sum) :
    ∃ account, store.account = some account ∧ account.genesisTsNs = genesisNs ∧
      account.cash = account.genesisCollateral + store.positions.sum Position.gain +
        ((counted genesisNs log).map FundingAccrual.amount).sum := by
  refine ⟨portfolio.account, sync.account, genesis, ?_⟩
  rw [sync.sum_eq fun _ => rfl]
  linarith

/-- The same, read off funded rows. -/
theorem Funded.ledger {portfolio : Portfolio} {store : Store}
    (funded : Funded genesisNs log store) (sync : LedgerSync config portfolio store) :
    portfolio.account.genesisTsNs = genesisNs ∧
      portfolio.account.cash - portfolio.positions.sum Position.gain =
        portfolio.account.genesisCollateral +
          ((counted genesisNs log).map FundingAccrual.amount).sum := by
  obtain ⟨account, there, genesis, cash⟩ := funded.cash
  rw [sync.account] at there
  cases there
  refine ⟨genesis, ?_⟩
  rw [sync.sum_eq fun _ => rfl] at cash
  linarith

end Rows

/-! ## A fill moves cash and gains together -/

section Fill

variable {genesisNs : Nanos} {log : FundingLog} {config : Config} {process : Process}
  {nowNs : Nanos}

/-- The pieces of one fill are for distinct partitions. -/
theorem piecesOf_distinct {order : Order} (once : OwnersOnce order) {tradeId : String}
    {quantity price cumQty fee : Decimal} {pieces : List Piece}
    (cut : piecesOf config order tradeId quantity price cumQty fee = .ok pieces) :
    (pieces.map Piece.key).Nodup := by
  unfold piecesOf at cut
  cases basisIs : order.splitBasis with
  | none =>
      rw [basisIs] at cut
      cases cut
      exact List.nodup_singleton _
  | some basis =>
      rw [basisIs] at cut
      simp only at cut
      cases spec : config.szDecimals order.symbol with
      | none =>
          unfold splitFill at cut
          rw [spec] at cut
          cases cut
      | some szDecimals =>
          obtain ⟨moves, split, moving, rfl⟩ :=
            splitFill_ok spec ⟨tradeId, quantity, price, fee⟩ cut
          obtain ⟨owners, _⟩ := flattenSplit_fees (once basis basisIs) split moving
          rw [List.map_map]
          have keys : moves.map (Piece.key ∘ pieceOf order ⟨tradeId, quantity, price, fee⟩) =
              (moves.map Prod.fst).map fun owner => (Owner.ofStored owner, order.symbol) := by
            rw [List.map_map]
            rfl
          rw [keys]
          apply owners.map
          intro first second same
          have is := congrArg (fun k : PartitionKey => Owner.stored k.1) same
          simpa only [stored_ofStored] using is

/-- **A fill report keeps the rows funded at every step of its handling.** -/
theorem onFill_funded (synced : process.Synced config (fun _ => False))
    (funded : Funded genesisNs log process.store) (report : FillReport) (nowNs : Nanos)
    (steps : ℕ) :
    Funded genesisNs log (process.play
      ((onFill config process.memory process.store report nowNs).effects.take steps)).store := by
  have still : ∀ effects : List Effect, (effects = [] ∨ ∃ memory, effects = [.memory memory]) →
      Funded genesisNs log (process.play (effects.take steps)).store := by
    intro effects shape
    rcases shape with rfl | ⟨memory, rfl⟩
    · rw [List.take_nil]
      exact funded
    · cases steps with
      | zero => exact funded
      | succ steps =>
          rw [List.take_succ_cons, List.take_nil]
          exact funded
  simp only [onFill]
  split
  · exact still _ (Or.inl rfl)
  · rename_i order held
    split
    · exact still _ (Or.inl rfl)
    · exact still _ (Or.inl rfl)
    · rename_i advanced event filled
      obtain ⟨_, ⟨none, _⟩ | ⟨event', _, _, _, result⟩⟩ := Order.recordFill_cases filled
      · cases none
      · cases result
        have row : process.store.orders.get report.cloid = some order := by
          rw [← synced.orders.orders _ not_false]
          exact held
        have once : OwnersOnce (order.enter event) := funded.owners _ order row
        split
        · exact still _ (Or.inr ⟨_, rfl⟩)
        · rename_i effects committed
          simp only [checkpointFill] at committed
          split at committed
          · cases committed
          · split at committed
            · cases committed
            · rename_i pieces cut
              obtain ⟨folded, changes, applied, rfl⟩ := commitFolds_cases committed
              have applied : process.memory.portfolio.applyFills config pieces =
                  .ok (folded, changes) := applied
              rcases play_fill_take process (process.memory.remember (order.enter event))
                { (process.memory.remember (order.enter event)) with portfolio := folded }
                { cache := (process.memory.cache.remember (order.enter event)).project
                    (order.enter event) nowNs
                  portfolio := changes.foldl Portfolio.project folded }
                { account := folded.account
                  positions := rowsOf folded changes
                  order := some (order.enter event)
                  tsNs := nowNs } event steps with same | same
              · exact same ▸ funded
              · refine same ▸ ?_
                have booked : bookPieces config process.memory.portfolio pieces =
                    .ok (changes.foldl Portfolio.project folded) := by
                  unfold bookPieces
                  rw [applied]
                have sync : LedgerSync config (changes.foldl Portfolio.project folded)
                    (process.store.checkpointLedger
                      { account := folded.account
                        positions := rowsOf folded changes
                        order := some (order.enter event)
                        tsNs := nowNs }) := synced.ledger.commitFolds applied rfl rfl
                obtain ⟨genesis, cash⟩ := funded.ledger synced.ledger
                have identity : (changes.foldl Portfolio.project folded).account.identity =
                    process.memory.portfolio.account.identity := by
                  rw [project_account]
                  exact (applyFills_folded synced.ledger.filed applied).identity
                have collateral := congrArg (fun i => i.2.1) identity
                have instant := congrArg (fun i => i.2.2) identity
                refine ⟨funded_cash sync (instant.trans genesis) ?_, ?_, ?_⟩
                · rw [bookPieces_cash synced.ledger.filed (piecesOf_distinct once cut) booked, cash]
                  congr 1
                  exact collateral.symm
                · rw [Store.checkpointLedger_fundingMarks]
                  exact funded.marks
                · intro c other there
                  rw [Store.checkpointLedger_orders] at there
                  have there : (process.store.orders.set (order.enter event).cloid
                    (order.enter event)).get c = some other := there
                  rw [Dict.get_set] at there
                  split at there
                  · cases there
                    exact once
                  · exact funded.owners c other there

end Fill

/-! ## A delivery -/

section Delivery

variable {genesisNs : Nanos} {log : FundingLog} {config : Config} {process : Process}
  {nowNs : Nanos}

/-- **The gates drop what does not count, and only that.** -/
theorem gates_iff {portfolio : Portfolio} {store : Store} {accrual : FundingAccrual}
    (genesis : portfolio.account.genesisTsNs = genesisNs) (funded : Funded genesisNs log store)
    (inOrder : BoundariesInOrder (accrual :: log)) :
    portfolio.applyFunding (store.fundingMarks.get accrual.symbol) accrual = none ↔
      ¬ Counts genesisNs log accrual := by
  unfold Portfolio.applyFunding
  rw [genesis]
  by_cases early : accrual.boundaryTsNs ≤ genesisNs
  · rw [if_pos early]
    exact ⟨fun _ counts => absurd counts.1 (not_lt.mpr early), fun _ => rfl⟩
  · rw [if_neg early]
    have above := not_le.mp early
    have covered := Watermark.covered_iff FundingAccrual.symbol FundingAccrual.boundaryTsNs
      (funded.marks accrual.symbol) inOrder above
    by_cases delivered : Watermark.Delivered FundingAccrual.symbol FundingAccrual.boundaryTsNs log
        accrual
    · rw [if_pos (covered.mpr delivered)]
      exact ⟨fun _ counts => counts.2 delivered, fun _ => rfl⟩
    · rw [if_neg fun dropped => delivered (covered.mp dropped)]
      exact ⟨nofun, fun dropped => absurd ⟨above, delivered⟩ dropped⟩

theorem counted_of_counts {accrual : FundingAccrual} (counts : Counts genesisNs log accrual) :
    counted genesisNs (accrual :: log) = accrual :: counted genesisNs log :=
  Watermark.firsts_counts FundingAccrual.symbol FundingAccrual.boundaryTsNs counts

theorem counted_of_dropped {accrual : FundingAccrual} (dropped : ¬ Counts genesisNs log accrual) :
    counted genesisNs (accrual :: log) = counted genesisNs log :=
  Watermark.firsts_dropped FundingAccrual.symbol FundingAccrual.boundaryTsNs dropped

/-- A delivery that does not count leaves the rows funded, itself on the log. -/
theorem Funded.dropped {store : Store} {accrual : FundingAccrual}
    (funded : Funded genesisNs log store) (dropped : ¬ Counts genesisNs log accrual) :
    Funded genesisNs (accrual :: log) store := by
  have same := counted_of_dropped dropped
  refine ⟨?_, ?_, funded.owners⟩
  · rw [same]
    exact funded.cash
  · intro symbol
    have marks := funded.marks symbol
    unfold boundariesOf Watermark.stampsOf at marks ⊢
    unfold counted at same
    rw [same]
    exact marks

/-- What one delivery left, beside what it found. -/
structure Delivers (genesisNs : Nanos) (log : FundingLog) (accrual : FundingAccrual)
    (before after : Process) : Prop where
  funded : Funded genesisNs (accrual :: log) after.store
  dropped : ¬ Counts genesisNs log accrual → after = before
  lines : Counts genesisNs log accrual →
    before.memory.portfolio.accountNet accrual.symbol ≠ 0 → ∀ symbol,
      let moved := if accrual.symbol = symbol then accrual.amount else 0
      fundingOn after.memory.portfolio.positions symbol =
          fundingOn before.memory.portfolio.positions symbol + moved ∧
        fundingOn after.store.positions symbol = fundingOn before.store.positions symbol + moved

/-- **A delivery never raises, and delivers**: it is dropped whole, or its cash,
its mark and the partitions' lines are one transaction. -/
theorem checkpointFunding_delivers {stale : Cloid → Prop} {accrual : FundingAccrual} (nowNs : Nanos)
    (synced : process.Synced config stale) (funded : Funded genesisNs log process.store)
    (inOrder : BoundariesInOrder (accrual :: log)) :
    ∃ effects, checkpointFunding process.memory process.store accrual nowNs = .ok effects ∧
      (effects = [] ∨ ∃ folded rows, effects = [.memory folded, .write (.checkpointLedger rows)]) ∧
      Delivers genesisNs log accrual process (process.play effects) := by
  have opened : isOpened process.memory process.store = true := by
    unfold isOpened
    rw [synced.ledger.account]
    exact Bool.or_true _
  obtain ⟨genesis, cash⟩ := funded.ledger synced.ledger
  have gates := gates_iff genesis funded inOrder
  unfold checkpointFunding
  rw [if_neg (by simp [opened])]
  cases folds : process.memory.portfolio.applyFunding
      (process.store.fundingMarks.get accrual.symbol) accrual with
  | none =>
      have dropped := gates.mp folds
      exact ⟨[], rfl, Or.inl rfl, funded.dropped dropped, fun _ => rfl,
        fun counts => absurd counts dropped⟩
  | some pair =>
      obtain ⟨folded, change⟩ := pair
      have counts : Counts genesisNs log accrual := by
        by_contra dropped
        rw [gates.mpr dropped] at folds
        cases folds
      have written : checkpointFunding process.memory process.store accrual nowNs = .ok
          [.memory { process.memory with portfolio := folded },
            .write (.checkpointLedger
              { account := folded.account
                positions := change.positions.filterMap folded.positions.get
                fundingMark := some change.fundingMark
                tsNs := nowNs })] := by
        unfold checkpointFunding
        rw [if_neg (by simp [opened])]
        simp only [folds]
      have after := synced.checkpointFunding written
      refine ⟨_, rfl, Or.inr ⟨_, _, rfl⟩, ?_⟩
      rw [play_accrual] at after ⊢
      -- The fold, read back: shares on the exposed partitions, the amount on the cash line.
      obtain ⟨shares, long, split, whole⟩ := splitAccrual_shares accrual.amount
        (exposed process.memory.portfolio accrual.symbol)
      have positions : folded.positions = process.memory.portfolio.positions.setAll
          ((List.zipWith Position.accrueFunding (exposed process.memory.portfolio accrual.symbol)
            shares).map fun position => (keyOf position, position)) ∧
          folded.account = process.memory.portfolio.account.accrueFunding accrual.amount ∧
          change.fundingMark = (accrual.symbol, accrual.boundaryTsNs) := by
        unfold Portfolio.applyFunding at folds
        split at folds
        · cases folds
        · split at folds
          · cases folds
          · cases folds
            refine ⟨?_, rfl, rfl⟩
            rw [← split]
            rfl
      obtain ⟨positionsAre, accountIs, markIs⟩ := positions
      have onSymbol : ∀ position ∈ exposed process.memory.portfolio accrual.symbol,
          position.symbol = accrual.symbol := fun position member =>
        of_decide_eq_true (List.mem_filter.mp (List.mem_filter.mp member).1).2
      have gains : folded.positions.sum Position.gain =
          process.memory.portfolio.positions.sum Position.gain := by
        rw [positionsAre, accrual_sum synced.ledger.filed long (f := Position.gain) (g := fun _ => 0)
          fun position _ share => (add_zero position.gain).symm]
        rw [List.sum_map_zero, add_zero]
      refine ⟨⟨?_, ?_, ?_⟩, fun dropped => absurd counts dropped, ?_⟩
      · refine funded_cash after.ledger ?_ ?_
        · rw [accountIs]
          exact genesis
        · rw [gains, accountIs, counted_of_counts counts]
          show process.memory.portfolio.account.cash + accrual.amount - _ = _
          rw [List.map_cons, List.sum_cons]
          have genesisIs : (process.memory.portfolio.account.accrueFunding
              accrual.amount).genesisCollateral =
                process.memory.portfolio.account.genesisCollateral := rfl
          rw [genesisIs]
          linarith
      · intro symbol
        rw [Store.checkpointLedger_fundingMarks, markIs]
        show Watermark.Highest ((process.store.fundingMarks.set accrual.symbol
          accrual.boundaryTsNs).get symbol) _
        rw [Dict.get_set]
        exact Watermark.highest_counts FundingAccrual.symbol FundingAccrual.boundaryTsNs counts
          inOrder symbol (funded.marks symbol)
      · intro c other there
        rw [Store.checkpointLedger_orders] at there
        exact funded.owners c other there
      · intro _ net symbol
        have shared : fundingOn folded.positions symbol =
            fundingOn process.memory.portfolio.positions symbol +
              if accrual.symbol = symbol then accrual.amount else 0 := by
          unfold fundingOn
          rw [positionsAre, accrual_sum synced.ledger.filed long
            (g := fun share => if accrual.symbol = symbol then share else 0)]
          · congr 1
            split
            · rw [List.map_id']
              exact whole (by rw [exposed_net]; exact net)
            · exact List.sum_map_zero
          · intro position member share
            have here := onSymbol position member
            have same : (position.accrueFunding share).symbol = position.symbol := rfl
            rw [same, here]
            split
            · rfl
            · exact (add_zero _).symm
        refine ⟨shared, ?_⟩
        show fundingOn (process.store.checkpointLedger _).positions symbol = _
        have durable := after.ledger.sum_eq (f := fun position : Position =>
          if position.symbol = symbol then position.funding else 0) fun _ => rfl
        have before := synced.ledger.sum_eq (f := fun position : Position =>
          if position.symbol = symbol then position.funding else 0) fun _ => rfl
        unfold fundingOn at shared ⊢
        rw [durable, before]
        exact shared

end Delivery

/-! ## Every run -/

section Run

variable {deriveCloid : SignalId → Cloid} {config : Config} {genesisNs : Nanos}
  {log : FundingLog}

/-- Deliveries, fills and what opens and closes the orders they fill: no heal and
no leftover move is in the run. -/
def Input.FundsOrFills : Input → Prop
  | .place _ _ _ | .report _ | .cancel _ | .cancelAll _ | .operatorCancel _ | .emit _ _
  | .funding _ => True
  | .heal _ _ _ | .leftover _ => False

def Label.FundsOrFills : Label → Prop
  | .handle input _ | .crashIn input _ _ _ => input.FundsOrFills
  | .sent _ | .crash _ => True

/-- The payment a step delivers.  One the process died on before its transaction
has not reached the ledger. -/
def delivered : Label → FundingLog
  | .handle (.funding accrual) _ => [accrual]
  | .crashIn (.funding accrual) _ steps _ => if 2 ≤ steps then [accrual] else []
  | _ => []

/-- The log after some more steps. -/
def logOf (log : FundingLog) : List Label → FundingLog
  | [] => log
  | label :: rest => logOf (delivered label ++ log) rest

theorem logOf_inOrder {labels : List Label} (inOrder : BoundariesInOrder (logOf log labels)) :
    BoundariesInOrder log := by
  induction labels generalizing log with
  | nil => exact inOrder
  | cons label rest ih => exact Watermark.inOrder_tail _ _ (ih inOrder)

/-- A life in step with its rows, whose rows are funded. -/
structure Paid (config : Config) (genesisNs : Nanos) (log : FundingLog) (life : Life) : Prop where
  steady : Steady config life
  paying : Paying genesisNs log life.process

/-- A placement opens over no partition twice. -/
theorem ownersOnce_approved {process : Process} {stale : Cloid → Prop}
    (synced : process.Synced config stale) {gates : Gates} {signal : PlaceSignal}
    {verdict : GuardDecision} {nowNs : Nanos} (cloid : Cloid) {quantity : Decimal}
    {price : Option Decimal} {basis : Option Basis}
    (approved : placeDecision gates process.memory.portfolio signal verdict =
      (.approved quantity price, basis)) :
    OwnersOnce (approvedOrder cloid signal quantity price basis nowNs) := by
  intro entries is
  have is : basis = some entries := is
  simp only [placeDecision] at approved
  split at approved
  · cases approved
  · split at approved
    · split at approved
      · cases approved
      · cases approved
        cases is
        exact splitBasisOf_distinct synced.ledger.filed signal.symbol
    · cases approved
      cases is

/-- The input is the only thing a step delivers. -/
def deliveredBy : Input → FundingLog
  | .funding accrual => [accrual]
  | _ => []

/-- Every row an input that is no delivery makes durable on its way is funded. -/
theorem handle_funded {life : Life} {input : Input} {nowNs : Nanos}
    (paid : Paid config genesisNs log life) (plain : input.FundsOrFills)
    (other : deliveredBy input = []) (taken : life.takes input = true) :
    let script := scriptOf deriveCloid config life.process nowNs input
    (∀ steps, Funded genesisNs log (life.process.play (script.effects.take steps)).store) ∧
      (script.fault = none → Paying genesisNs log (life.process.play script.effects)) := by
  intro script
  have quiet : ∀ effects : List Effect,
      Along perform (Quiet SameBasis OwnersOnce (fun _ _ => True)) life.process effects →
      (∀ steps, Funded genesisNs log (life.process.play (effects.take steps)).store) ∧
        (script.fault = none → Paying genesisNs log (life.process.play effects)) :=
    fun effects along =>
      ⟨fun steps => (along.keeps_take (Paying genesisNs log) quiet_paying paid.paying steps).funded,
        fun _ => along.keeps (Paying genesisNs log) quiet_paying paid.paying⟩
  have idle : input.onBus = true → life.process.Synced config (fun _ => False) :=
    fun onBus => paid.steady.onBus onBus taken
  have succession := sameBasis_succession
  have linked := paid.paying.linked
  cases input with
  | place gates signal verdict =>
      refine quiet _ (onPlace_quiet succession (idle rfl) linked ?_
        (fun _ _ _ => ownersOnce_approved (idle rfl) _) fun _ _ _ _ _ _ _ _ _ => trivial)
      intro reason basis is
      cases is
  | cancel signal => exact quiet _ (onCancel_quiet succession (idle rfl) linked)
  | cancelAll signal => exact quiet _ (onCancelAll_quiet succession (idle rfl) linked)
  | report report =>
      cases report with
      | status report => exact quiet _ (onStatus_quiet succession (idle rfl) linked)
      | fill report =>
          have funded := onFill_funded (idle rfl) paid.paying.funded report nowNs
          refine ⟨funded, fun clean => ⟨?_, ?_⟩⟩
          · have whole := funded script.effects.length
            rwa [show (onFill config life.process.memory life.process.store report nowNs).effects =
              script.effects from rfl, List.take_length] at whole
          · exact ((idle rfl).onFill report clean).linked succession
      | refused cloid symbol => exact quiet [] trivial
  | emit strategyId seq => exact quiet _ (emit_quiet linked strategyId seq)
  | operatorCancel resting =>
      exact quiet _ (cancelForOperator_quiet succession paid.steady.synced linked paid.steady.row)
  | funding accrual => cases other
  | heal _ _ _ | leftover _ => exact plain.elim

/-- A delivery's script, once its verb has returned. -/
theorem funding_script {process : Process} {nowNs : Nanos} {accrual : FundingAccrual}
    {effects : List Effect}
    (returned : checkpointFunding process.memory process.store accrual nowNs = .ok effects) :
    scriptOf deriveCloid config process nowNs (.funding accrual) = { effects := effects } := by
  show Script.ofVerb (checkpointFunding process.memory process.store accrual nowNs) = _
  rw [returned]
  rfl

/-- Before its transaction nothing of a delivery is durable. -/
theorem funding_early (process : Process) (nowNs : Nanos) (accrual : FundingAccrual) {steps : ℕ}
    (early : steps < 2) :
    (process.play ((scriptOf deriveCloid config process nowNs
      (.funding accrual)).effects.take steps)).store = process.store := by
  show (process.play ((Script.ofVerb (checkpointFunding process.memory process.store accrual
    nowNs)).effects.take steps)).store = _
  unfold checkpointFunding
  split
  · exact congrArg (fun effects => (process.play effects).store) List.take_nil
  · split
    · exact congrArg (fun effects => (process.play effects).store) List.take_nil
    · obtain rfl | rfl : steps = 0 ∨ steps = 1 := by omega
      · rfl
      · rfl

/-- A restart over funded rows. -/
theorem restart_paid {process : Process} {restartNs : Nanos} {next : Life}
    (sound : Sound config process.store) (funded : Funded genesisNs log process.store)
    (restarted : restart config process restartNs = some next) :
    Paid config genesisNs log next := by
  obtain ⟨steady, same, idle⟩ := restart_steady sound restarted
  refine ⟨steady, ?_, (steady.idle idle).linked sameBasis_succession⟩
  rw [same]
  exact funded

/-- **Every step of the engine keeps the rows funded**, a crash's step too. -/
theorem step_paid {life next : Life} {label : Label} (paid : Paid config genesisNs log life)
    (plain : label.FundsOrFills) (inOrder : BoundariesInOrder (delivered label ++ log))
    (stepped : (engine deriveCloid config).step life label = some next) :
    Paid config genesisNs (delivered label ++ log) next := by
  have steady := step_steady paid.steady stepped
  cases label with
  | handle input nowNs =>
      simp only [engine] at stepped
      split at stepped
      · rename_i enabled
        cases stepped
        by_cases other : deliveredBy input = []
        · have none_ : delivered (.handle input nowNs) = [] := by
            cases input <;> first | rfl | cases other
          rw [none_]
          exact ⟨steady, (handle_funded paid plain other enabled.1).2 enabled.2⟩
        · cases input with
          | funding accrual =>
              have synced : life.process.Synced config (fun _ => False) :=
                paid.steady.onBus rfl enabled.1
              obtain ⟨effects, is, _, delivers⟩ :=
                checkpointFunding_delivers nowNs synced paid.paying.funded inOrder
              refine ⟨steady, ?_, ?_⟩
              · show Funded genesisNs (accrual :: log) (life.process.play _).store
                rw [funding_script is]
                exact delivers.funded
              · show Linked SameBasis (life.process.play _).memory.cache (life.process.play _).store
                rw [funding_script is]
                exact (synced.checkpointFunding is).linked sameBasis_succession
          | place _ _ _ | cancel _ | cancelAll _ | report _ | emit _ _ | operatorCancel _
          | heal _ _ _ | leftover _ => exact absurd rfl other
      · cases stepped
  | sent nowNs =>
      refine ⟨steady, ?_⟩
      simp only [engine] at stepped
      split at stepped
      · cases stepped
      · rename_i cloid waiting
        cases stepped
        have quiet : Along perform (Quiet SameBasis OwnersOnce (fun _ _ => True)) life.process
            (afterSend life.process.memory cloid nowNs).effects :=
          afterSend_quiet sameBasis_succession paid.steady.synced paid.paying.linked
            (paid.steady.row cloid waiting)
        exact quiet.keeps (Paying genesisNs log) quiet_paying paid.paying
  | crash restartNs => exact restart_paid paid.steady.synced.sound paid.paying.funded stepped
  | crashIn input nowNs steps restartNs =>
      simp only [engine] at stepped
      split at stepped
      · rename_i taken
        apply restart_paid (sound_take paid.steady.synced.sound _ steps) ?_ stepped
        by_cases other : deliveredBy input = []
        · have none_ : delivered (.crashIn input nowNs steps restartNs) = [] := by
            cases input <;> first | rfl | cases other
          rw [none_]
          exact (handle_funded paid plain other taken).1 steps
        · cases input with
          | funding accrual =>
              have synced : life.process.Synced config (fun _ => False) :=
                paid.steady.onBus rfl taken
              by_cases landed : 2 ≤ steps
              · have one : delivered (.crashIn (.funding accrual) nowNs steps restartNs) =
                    [accrual] := if_pos landed
                rw [one] at inOrder ⊢
                obtain ⟨effects, is, shape, delivers⟩ :=
                  checkpointFunding_delivers nowNs synced paid.paying.funded inOrder
                have whole : effects.take steps = effects := by
                  apply List.take_of_length_le
                  rcases shape with rfl | ⟨_, _, rfl⟩
                  · exact Nat.zero_le _
                  · exact landed
                rw [funding_script is, whole]
                exact delivers.funded
              · have none_ : delivered (.crashIn (.funding accrual) nowNs steps restartNs) = [] :=
                  if_neg landed
                rw [none_, funding_early life.process nowNs accrual (not_le.mp landed)]
                exact paid.paying.funded
          | place _ _ _ | cancel _ | cancelAll _ | report _ | emit _ _ | operatorCancel _
          | heal _ _ _ | leftover _ => exact absurd rfl other
      · cases stepped

/-- **Every run keeps the rows funded.** -/
theorem run_paid {life next : Life} {labels : List Label} (paid : Paid config genesisNs log life)
    (plain : ∀ label ∈ labels, label.FundsOrFills)
    (inOrder : BoundariesInOrder (logOf log labels))
    (ran : (engine deriveCloid config).run life labels = some next) :
    Paid config genesisNs (logOf log labels) next := by
  induction labels generalizing life log with
  | nil => cases ran; exact paid
  | cons label rest ih =>
      obtain ⟨middle, enabled, tail⟩ := Machine.run_cons_eq_some.mp ran
      exact ih (step_paid paid (plain label List.mem_cons_self) (logOf_inOrder inOrder) enabled)
        (fun l member => plain l (List.mem_cons_of_mem _ member)) inOrder tail

/-- The first life over an untraded, unmarked store. -/
theorem untraded_paid {process : Process} {startNs : Nanos} {first : Life}
    (untraded : Untraded config process.store) (unmarked : process.store.fundingMarks = Dict.empty)
    (began : restart config process startNs = some first) :
    Paid config first.process.memory.portfolio.account.genesisTsNs [] first := by
  obtain ⟨steady, begun⟩ := untraded_steady untraded began
  have marks : first.process.store.fundingMarks = Dict.empty := by
    unfold restart at began
    cases recovery : recover config process.store startNs with
    | error mismatch => rw [recovery] at began; cases began
    | ok pair =>
        obtain ⟨memory, txns⟩ := pair
        rw [recovery] at began
        cases began
        show (txns.foldl Store.commit process.store).fundingMarks = _
        simp only [recover] at recovery
        split at recovery
        · cases recovery
        · split at recovery
          · split at recovery
            · cases recovery
              exact unmarked
            · cases recovery
              exact unmarked
          · cases recovery
            exact unmarked
  obtain ⟨account, there, genesis⟩ := begun.genesis
  have same : account = first.process.memory.portfolio.account := by
    have sync := steady.synced.ledger.account
    rw [there] at sync
    exact Option.some.inj sync
  refine ⟨steady, ⟨⟨account, there, by rw [same], ?_⟩, ?_, ?_⟩, ?_⟩
  · rw [begun.positions, genesis, Dict.sum_empty]
    show _ = _ + 0 + 0
    ring
  · intro symbol
    rw [marks]
    rfl
  · intro c order row
    rw [begun.orders] at row
    cases row
  · intro c order row _ stored
    rw [begun.orders] at stored
    cases stored

/-- **Funding is applied exactly once per boundary.**  From a ledger nothing has
reached, over every run of deliveries, fills and crashes in which each symbol's
boundaries come in order, re-deliveries aside: the durable cash line is genesis,
realized less fees, and each counted payment once; each durable mark is the
highest boundary counted; and the next delivery, if it does not count, changes
nothing durable or in memory, and if it counts and the symbol's partitions do
not net to zero, moves their funding lines together by exactly its amount. -/
theorem run_funded {process : Process} {startNs : Nanos} {first last : Life} {labels : List Label}
    (untraded : Untraded config process.store) (unmarked : process.store.fundingMarks = Dict.empty)
    (begun : restart config process startNs = some first)
    (plain : ∀ label ∈ labels, label.FundsOrFills)
    (inOrder : BoundariesInOrder (logOf [] labels))
    (ran : (engine deriveCloid config).run first labels = some last) :
    let genesisNs := first.process.memory.portfolio.account.genesisTsNs
    let log := logOf [] labels
    (∃ account, last.process.store.account = some account ∧
      account.cash = account.genesisCollateral +
        (last.process.store.positions.sum fun position => position.realizedPnl - position.fees) +
          ((counted genesisNs log).map FundingAccrual.amount).sum) ∧
    (∀ symbol, Watermark.Highest (last.process.store.fundingMarks.get symbol)
      (boundariesOf genesisNs log symbol)) ∧
    ∀ accrual nowNs, BoundariesInOrder (accrual :: log) →
      let script := scriptOf deriveCloid config last.process nowNs (.funding accrual)
      let after := last.process.play script.effects
      script.fault = none ∧
      (¬ Counts genesisNs log accrual → after = last.process) ∧
      (Counts genesisNs log accrual →
        last.process.memory.portfolio.accountNet accrual.symbol ≠ 0 → ∀ symbol,
          let moved := if accrual.symbol = symbol then accrual.amount else 0
          fundingOn after.memory.portfolio.positions symbol =
              fundingOn last.process.memory.portfolio.positions symbol + moved ∧
            fundingOn after.store.positions symbol =
              fundingOn last.process.store.positions symbol + moved) := by
  intro genesisNs log
  have paid : Paid config genesisNs log last :=
    run_paid (untraded_paid untraded unmarked begun) plain inOrder ran
  obtain ⟨account, there, _, cash⟩ := paid.paying.funded.cash
  refine ⟨⟨account, there, cash⟩, paid.paying.funded.marks, ?_⟩
  intro accrual nowNs next
  obtain ⟨effects, is, _, delivers⟩ :=
    checkpointFunding_delivers nowNs paid.steady.synced paid.paying.funded next
  rw [funding_script is]
  exact ⟨rfl, delivers.dropped, delivers.lines⟩

end Run

namespace Sample

/-- A payment the process dies on after its transaction, the same one again, and
the next boundary's. -/
def payments : List Label :=
  [.crashIn (.funding ⟨"BTC", 100, -3⟩) 7 2 8, .handle (.funding ⟨"BTC", 100, -3⟩) 9,
    .handle (.funding ⟨"BTC", 200, 1⟩) 10]

theorem payments_inOrder : BoundariesInOrder (logOf [] (labels ++ payments)) := by
  refine ⟨Or.inr ?_, Or.inl ⟨_, List.mem_cons_self, rfl, rfl⟩, Or.inr nofun, trivial⟩
  intro earlier member _
  have boundary : earlier.boundaryTsNs = 100 := by
    rcases List.mem_cons.mp member with rfl | member
    · rfl
    · rw [List.mem_singleton.mp member]
  rw [boundary]
  show (100 : ℤ) ≤ 200
  decide

/-- Paid three and then one back, once each, on four bought at a fee of one. -/
theorem payments_once :
    ∃ first last, restart paper unstarted 0 = some first ∧
      (engine cloidOf paper).run first (labels ++ payments) = some last ∧
      ∃ account, last.process.store.account = some account ∧ account.cash =
        account.genesisCollateral + (last.process.store.positions.sum fun position =>
          position.realizedPnl - position.fees) +
            ((counted first.process.memory.portfolio.account.genesisTsNs
              (logOf [] (labels ++ payments))).map FundingAccrual.amount).sum := by
  have lived : ((restart paper unstarted 0).bind fun first =>
      ((engine cloidOf paper).run first (labels ++ payments)).map fun last =>
        last.process.store.fundingMarks.get "BTC") = some (some 200) := by
    decide +kernel
  obtain ⟨first, begun, lived⟩ := Option.bind_eq_some_iff.mp lived
  obtain ⟨last, ran, _⟩ := Option.map_eq_some_iff.mp lived
  refine ⟨first, last, begun, ran, (run_funded unstarted_untraded rfl begun ?_ payments_inOrder
    ran).1⟩
  intro label member
  simp only [labels, payments, List.cons_append, List.nil_append, List.mem_cons, List.not_mem_nil,
    or_false] at member
  rcases member with rfl | rfl | rfl | rfl | rfl | rfl | rfl | rfl <;> trivial

end Sample

end Tickwright.Engine
