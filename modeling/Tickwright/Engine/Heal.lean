/-
# Engine.Heal -- what one committed heal leaves on the ledger

A heal is three parts in one transaction: its fills on the unattributed
partitions, the venue's buckets on the partitions holding them, and the cash
line.  The buckets enter no size and no cash figure, so the ledger a heal leaves
is read off the same batch booked alone, up to buckets (`SameBook`).

* `checkpointHeal_healed` is the specification: a heal whose fills are new is
  never refused, moves the net of each symbol by its own fill, and leaves net
  cash at the correction's target where it carries one;
* `Stamped` and the filed ids are what the next pass reads of it.
-/
import Tickwright.Engine.HandlerSync
import Tickwright.Engine.Batch

namespace Tickwright.Engine

open Tickwright.Domain Tickwright.Theory Tickwright.Store

set_option autoImplicit false

/-! ## Ledgers that differ in their buckets -/

/-- A partition without its bucket. -/
def bare (position : Position) : Position := { position with isolatedCollateral := none }

/-- One book, buckets aside. -/
def SameBook (d e : Dict PartitionKey Position) : Prop := (d.map bare).Same (e.map bare)

namespace SameBook

variable {d e g : Dict PartitionKey Position}

theorem refl (d : Dict PartitionKey Position) : SameBook d d := Dict.Same.refl _

theorem trans (first : SameBook d e) (second : SameBook e g) : SameBook d g :=
  Dict.Same.trans first second

theorem of_same (same : d.Same e) : SameBook d e := same.map bare

/-- A sum that reads no bucket is the same over both. -/
theorem sum_eq (same : SameBook d e) {f : Position → Decimal}
    (unbucketed : ∀ position, f (bare position) = f position) : d.sum f = e.sum f := by
  have read : ∀ some_ : Dict PartitionKey Position, (some_.map bare).sum f = some_.sum f := by
    intro some_
    unfold Dict.sum
    rw [Dict.values_map, List.map_map]
    congr 1
    apply List.map_congr_left
    intro position _
    exact unbucketed position
  rw [← read d, ← read e]
  exact Dict.Same.sum_eq same f

theorem get (same : SameBook d e) (k : PartitionKey) : (d.get k).map bare = (e.get k).map bare := by
  have here := same k
  rw [Dict.get_map, Dict.get_map] at here
  exact here

/-- Both file the same ids on each partition. -/
theorem ids {portfolio after : Portfolio} (same : SameBook portfolio.positions after.positions)
    (k : PartitionKey) : (portfolio.partition k).appliedEventIds =
      (after.partition k).appliedEventIds := by
  have here := same.get k
  unfold Portfolio.partition
  cases first : portfolio.positions.get k with
  | none =>
      rw [first, Option.map_none] at here
      rw [Option.map_eq_none_iff.mp here.symm]
  | some position =>
      rw [first, Option.map_some] at here
      obtain ⟨other, there, bares⟩ := Option.map_eq_some_iff.mp here.symm
      have named : (bare position).appliedEventIds = (bare other).appliedEventIds := by rw [bares]
      rw [there]
      exact named

/-- A new bucket is no new book. -/
theorem set (same : SameBook d e) {k : PartitionKey} {position moved : Position}
    (held : e.get k = some position) (bucket : bare moved = bare position) :
    SameBook (d.set k moved) e := by
  unfold SameBook
  rw [Dict.map_set, bucket]
  have there : (e.map bare).get k = some (bare position) := by rw [Dict.get_map, held]; rfl
  have kept := Dict.Same.set same k (bare position)
  rw [Dict.set_get_self _ there] at kept
  exact kept

end SameBook

theorem netCash_congr {portfolio after : Portfolio} (account : portfolio.account = after.account)
    (same : SameBook portfolio.positions after.positions) : portfolio.netCash = after.netCash := by
  unfold Portfolio.netCash
  rw [account, same.sum_eq fun _ => rfl]

theorem accountNet_congr {portfolio after : Portfolio}
    (same : SameBook portfolio.positions after.positions) (symbol : Symbol) :
    portfolio.accountNet symbol = after.accountNet symbol := by
  rw [accountNet_sum, accountNet_sum]
  exact same.sum_eq fun _ => rfl

/-! ## The ingest and the projection -/

theorem postShare_sameBook {portfolio : Portfolio} {state : Portfolio × List PartitionKey}
    (same : SameBook state.1.positions portfolio.positions) (carried : Symbol → Bool)
    {share : Position × Decimal} (held : portfolio.positions.get (keyOf share.1) = some share.1) :
    SameBook (Portfolio.postShare carried state share).1.positions portfolio.positions := by
  simp only [Portfolio.postShare]
  split
  · exact same
  · split
    · exact same
    · exact same.set held rfl

/-- The ingest moves buckets and nothing else of the book. -/
theorem ingest_sameBook {portfolio : Portfolio} (snapshot : Option VenueAccountState)
    (filed : Filed portfolio.positions) :
    SameBook (portfolio.ingest snapshot).1.positions portfolio.positions := by
  cases snapshot with
  | none => exact SameBook.refl _
  | some state =>
      have held : ∀ share ∈ portfolio.venueShares state,
          portfolio.positions.get (keyOf share.1) = some share.1 := by
        intro share member
        simp only [Portfolio.venueShares, List.mem_flatMap] at member
        obtain ⟨symbol, _, zipped⟩ := member
        have across := (List.of_mem_zip zipped).1
        simp only [Portfolio.across, List.mem_filter] at across
        obtain ⟨k, there⟩ := (Dict.mem_values _ _).mp across.1
        rw [(filed k _ there).1]
        exact there
      simp only [Portfolio.ingest, Portfolio.ingestCollateral]
      generalize (fun symbol => decide
        (Portfolio.venueSize state symbol = portfolio.accountNet symbol)) = carried
      generalize portfolio.venueShares state = shares at held
      have start : SameBook (portfolio, ([] : List PartitionKey)).1.positions portfolio.positions :=
        SameBook.refl _
      generalize (portfolio, ([] : List PartitionKey)) = from_ at start
      induction shares generalizing from_ with
      | nil => exact start
      | cons share rest ih =>
          exact ih (fun s member => held s (List.mem_cons_of_mem _ member)) _
            (postShare_sameBook start carried (held share List.mem_cons_self))

/-- One change reads as the same record off either of two ledgers of one book. -/
theorem current_sameBook {first second : Portfolio} {changes : List LedgerChange}
    (same : SameBook first.positions second.positions) (awaiting : Awaiting first changes)
    (other : Awaiting second changes) {change : LedgerChange} (member : change ∈ changes) :
    bare (change.current first) = bare (change.current second) := by
  cases filed : change.filed with
  | false => simp only [LedgerChange.current, filed]; rfl
  | true =>
      have here := same.get change.key
      rw [awaiting.current_filed member filed, other.current_filed member filed] at here
      exact Option.some.inj here

/-- Projecting one batch onto two ledgers of one book leaves one book. -/
theorem project_sameBook {first second : Portfolio} {changes : List LedgerChange}
    (same : SameBook first.positions second.positions) (awaiting : Awaiting first changes)
    (other : Awaiting second changes) :
    SameBook (changes.foldl Portfolio.project first).positions
      (changes.foldl Portfolio.project second).positions := by
  rw [awaiting.project, other.project]
  unfold SameBook
  rw [Dict.map_setAll, Dict.map_setAll]
  have rows : ((rowsOf first changes).map fun position => (keyOf position, position)).map
      (fun pair => (pair.1, bare pair.2)) =
      ((rowsOf second changes).map fun position => (keyOf position, position)).map
        fun pair => (pair.1, bare pair.2) := by
    unfold rowsOf
    simp only [List.map_map]
    apply List.map_congr_left
    intro change member
    simp only [Function.comp_apply, awaiting.current_key change, other.current_key change,
      current_sameBook same awaiting other member]
  rw [rows]
  exact Dict.Same.setAll same _

/-! ## Fill stamps -/

/-- No symbol is stamped above the ledger's own fill count. -/
def Stamped (portfolio : Portfolio) : Prop :=
  ∀ symbol stamp, portfolio.lastFills.get symbol = some stamp → stamp ≤ portfolio.fillsApplied

theorem Stamped.openAt (config : Config) (tsNs : Nanos) : Stamped (Portfolio.openAt config tsNs) :=
  nofun

theorem Stamped.applyFill {config : Config} {portfolio after : Portfolio} {fill : BookableFill}
    {side : Side} {change : LedgerChange} (stamped : Stamped portfolio)
    (folded : portfolio.applyFill config fill side = .ok (after, change)) : Stamped after := by
  simp only [Portfolio.applyFill] at folded
  split at folded
  · cases folded
  · rename_i booked changes _
    cases folded
    intro symbol stamp there
    dsimp only at there ⊢
    split at there
    · rename_i none_
      rw [if_pos none_]
      exact stamped symbol stamp there
    · rename_i some_
      rw [if_neg some_]
      rw [Dict.get_set] at there
      split at there
      · cases there
        exact le_refl _
      · exact (stamped symbol stamp there).trans (Nat.le_succ _)

theorem Stamped.applyFills {config : Config} {portfolio after : Portfolio} {pieces : List Piece}
    {changes : List LedgerChange} (stamped : Stamped portfolio)
    (folded : portfolio.applyFills config pieces = .ok (after, changes)) : Stamped after := by
  induction pieces generalizing portfolio changes with
  | nil => cases folded; exact stamped
  | cons piece rest ih =>
      obtain ⟨fill, side⟩ := piece
      simp only [Portfolio.applyFills] at folded
      split at folded
      · cases folded
      · rename_i middle change first
        split at folded
        · cases folded
        · rename_i last later second
          cases folded
          exact ih (stamped.applyFill first) second

/-- What stamps and the open flag read: everything a bucket or a cash line is not. -/
theorem project_stamps (changes : List LedgerChange) (portfolio : Portfolio) :
    (changes.foldl Portfolio.project portfolio).lastFills = portfolio.lastFills ∧
      (changes.foldl Portfolio.project portfolio).fillsApplied = portfolio.fillsApplied ∧
      (changes.foldl Portfolio.project portfolio).opened = portfolio.opened := by
  induction changes generalizing portfolio with
  | nil => exact ⟨rfl, rfl, rfl⟩
  | cons change rest ih =>
      rw [List.foldl_cons]
      obtain ⟨stamps, count, opened⟩ := ih (portfolio.project change)
      rw [stamps, count, opened]
      simp only [Portfolio.project]
      split <;> exact ⟨rfl, rfl, rfl⟩

theorem ingest_stamps (portfolio : Portfolio) (snapshot : Option VenueAccountState) :
    (portfolio.ingest snapshot).1.lastFills = portfolio.lastFills ∧
      (portfolio.ingest snapshot).1.fillsApplied = portfolio.fillsApplied ∧
      (portfolio.ingest snapshot).1.opened = portfolio.opened ∧
      (portfolio.ingest snapshot).1.account = portfolio.account := by
  cases snapshot with
  | none => exact ⟨rfl, rfl, rfl, rfl⟩
  | some state =>
      simp only [Portfolio.ingest, Portfolio.ingestCollateral]
      generalize (fun symbol => decide
        (Portfolio.venueSize state symbol = portfolio.accountNet symbol)) = carried
      have start : (portfolio, ([] : List PartitionKey)).1 = portfolio := rfl
      generalize portfolio.venueShares state = shares
      suffices walk : ∀ from_ : Portfolio × List PartitionKey,
          (shares.foldl (Portfolio.postShare carried) from_).1.lastFills = from_.1.lastFills ∧
          (shares.foldl (Portfolio.postShare carried) from_).1.fillsApplied = from_.1.fillsApplied ∧
          (shares.foldl (Portfolio.postShare carried) from_).1.opened = from_.1.opened ∧
          (shares.foldl (Portfolio.postShare carried) from_).1.account = from_.1.account from
        walk (portfolio, [])
      induction shares with
      | nil => intro from_; exact ⟨rfl, rfl, rfl, rfl⟩
      | cons share rest ih =>
          intro from_
          rw [List.foldl_cons]
          obtain ⟨stamps, count, opened, account⟩ := ih (Portfolio.postShare carried from_ share)
          rw [stamps, count, opened, account]
          simp only [Portfolio.postShare]
          split
          · exact ⟨rfl, rfl, rfl, rfl⟩
          · split <;> exact ⟨rfl, rfl, rfl, rfl⟩

theorem correct_stamps (portfolio : Portfolio) (changes : List LedgerChange)
    (cash : Option CashCorrection) :
    (portfolio.correct changes cash).lastFills = portfolio.lastFills ∧
      (portfolio.correct changes cash).fillsApplied = portfolio.fillsApplied ∧
      (portfolio.correct changes cash).opened = portfolio.opened ∧
      (portfolio.correct changes cash).positions = portfolio.positions := by
  cases cash <;> exact ⟨rfl, rfl, rfl, rfl⟩

/-! ## One heal -/

/-- A heal's fill as the batch it is booked in holds it. -/
def healPiece (fill : ReconciliationFill) : Piece := (fill.bookable, fill.side)

/-- What a heal's fill moves its symbol's net by. -/
def healSigned (fill : ReconciliationFill) : Decimal := fill.side.sign * fill.quantity

theorem applyFills_moves {config : Config} {portfolio after : Portfolio} {pieces : List Piece}
    {changes : List LedgerChange} {start : Portfolio} (filed : Filed portfolio.positions)
    (distinct : (pieces.map Piece.key).Nodup)
    (same : ∀ piece ∈ pieces, portfolio.partition piece.key = start.partition piece.key)
    (fresh : ∀ piece ∈ pieces, ¬ Seen start piece)
    (folded : portfolio.applyFills config pieces = .ok (after, changes)) :
    changes.length = pieces.length ∧ ∀ change ∈ changes, change.changes ≠ [] := by
  induction pieces generalizing portfolio changes with
  | nil => cases folded; exact ⟨rfl, nofun⟩
  | cons piece rest ih =>
      obtain ⟨absent, distinctRest⟩ := List.nodup_cons.mp distinct
      simp only [Portfolio.applyFills] at folded
      split at folded
      · cases folded
      · rename_i middle change first
        split at folded
        · cases folded
        · rename_i last later second
          cases folded
          obtain ⟨_, middleFiled, _, off, _⟩ := applyFill_lands filed first
          have sameRest : ∀ other ∈ rest,
              middle.partition other.key = start.partition other.key := by
            intro other member
            have ne : other.key ≠ piece.key := by
              intro is
              exact absent (is ▸ List.mem_map_of_mem member)
            rw [off _ ne, same other (List.mem_cons_of_mem _ member)]
          obtain ⟨count, moved⟩ := ih middleFiled distinctRest sameRest
            (fun other member => fresh other (List.mem_cons_of_mem _ member)) second
          refine ⟨by rw [List.length_cons, List.length_cons, count], ?_⟩
          intro other member
          rcases List.mem_cons.mp member with rfl | later
          · obtain ⟨_, _, _, _, ⟨seen, _, _, _⟩ | ⟨_, _, moves, _⟩⟩ :=
              Portfolio.applyFill_cases first
            · rw [show (piece.1.owner, piece.1.symbol) = piece.key from rfl,
                same piece List.mem_cons_self] at seen
              exact absurd seen (fresh piece List.mem_cons_self)
            · rw [moves]
              exact Position.booked_ne_nil _ _ _
          · exact moved other later

/-- What a heal leaves on the ledger, by the figures a pass reads. -/
structure Healed (portfolio after : Portfolio) (fills : List ReconciliationFill)
    (cash : Option CashCorrection) : Prop where
  filed : Filed after.positions
  stamped : Stamped after
  ids : ∀ k id, id ∈ (after.partition k).appliedEventIds →
    id ∈ (portfolio.partition k).appliedEventIds ∨
      ∃ fill ∈ fills, .reconcile fill.symbol fill.tsNs = id
  net : ∀ symbol, after.accountNet symbol = portfolio.accountNet symbol +
    (fills.map fun fill => if fill.symbol = symbol then healSigned fill else 0).sum
  netCash : after.netCash = cash.elim
    (portfolio.netCash - (fills.map fun fill => healSigned fill * fill.price).sum)
    CashCorrection.netCash

theorem held_keyed {after : Portfolio} {changes : List LedgerChange}
    (awaiting : Awaiting after changes) :
    (after.held changes) = (changes.foldl Portfolio.project after).positions := by
  rw [awaiting.project]
  unfold Portfolio.held rowsOf
  rw [List.map_map]
  congr 1
  apply List.map_congr_left
  intro change _
  simp only [Function.comp_apply, awaiting.current_key change]

section Spec

variable {config : Config} {process : Process} {fills : List ReconciliationFill}

/-- Heals of distinct symbols go to distinct partitions. -/
theorem healPieces_distinct (distinct : (fills.map ReconciliationFill.symbol).Nodup) :
    ((fills.map healPiece).map Piece.key).Nodup := by
  have named : (fills.map healPiece).map Piece.key =
      (fills.map ReconciliationFill.symbol).map fun symbol => ((none, symbol) : PartitionKey) := by
    rw [List.map_map, List.map_map]
    rfl
  rw [named]
  exact distinct.map fun first second same => congrArg Prod.snd same

/-- The batch a heal's fills are, booked alone. -/
theorem healPieces_book {portfolio booked : Portfolio} (filed : Filed portfolio.positions)
    (distinct : (fills.map ReconciliationFill.symbol).Nodup)
    (fresh : ∀ fill ∈ fills, ¬ Seen portfolio (healPiece fill))
    (books : bookPieces config portfolio (fills.map healPiece) = .ok booked) :
    (∀ k id, id ∈ (booked.partition k).appliedEventIds →
      id ∈ (portfolio.partition k).appliedEventIds ∨
        ∃ fill ∈ fills, .reconcile fill.symbol fill.tsNs = id) ∧
    (∀ symbol, booked.accountNet symbol = portfolio.accountNet symbol +
      (fills.map fun fill => if fill.symbol = symbol then healSigned fill else 0).sum) ∧
    booked.netCash =
      portfolio.netCash - (fills.map fun fill => healSigned fill * fill.price).sum := by
  have keys := healPieces_distinct distinct
  have all : freshOf portfolio (fills.map healPiece) = fills.map healPiece := by
    unfold freshOf
    rw [List.filter_eq_self]
    intro piece member
    obtain ⟨fill, listed, rfl⟩ := List.mem_map.mp member
    exact decide_eq_true (fresh fill listed)
  refine ⟨?_, ?_, ?_⟩
  · intro k id there
    rcases (bookPieces_filed filed keys books k id).mp there with old | ⟨piece, member, _, rfl⟩
    · exact Or.inl old
    · obtain ⟨fill, listed, rfl⟩ := List.mem_map.mp member
      exact Or.inr ⟨fill, listed, rfl⟩
  · intro symbol
    rw [bookPieces_net filed keys books, all, List.map_map]
    rfl
  · rw [bookPieces_netCash filed keys books, all, List.map_map]
    congr 2
    apply List.map_congr_left
    intro fill _
    exact add_zero _

/-- **A heal whose fills are new is never refused, and leaves what it names.** -/
theorem checkpointHeal_healed (config : Config) (cash : Option CashCorrection)
    (snapshot : Option VenueAccountState) (nowNs : Nanos)
    (filed : Filed process.memory.portfolio.positions)
    (stamped : Stamped process.memory.portfolio)
    (opened : isOpened process.memory process.store = true)
    (distinct : (fills.map ReconciliationFill.symbol).Nodup)
    (positive : ∀ fill ∈ fills, 0 < fill.quantity)
    (fresh : ∀ fill ∈ fills, ¬ Seen process.memory.portfolio (healPiece fill)) :
    ∃ effects, checkpointHeal config process.memory process.store fills cash snapshot nowNs =
        .ok effects ∧
      Healed process.memory.portfolio (process.play effects).memory.portfolio fills cash ∧
      isOpened (process.play effects).memory (process.play effects).store = true := by
  have keys := healPieces_distinct distinct
  obtain ⟨folded, changes, folds⟩ : ∃ folded changes,
      process.memory.portfolio.applyFills config (fills.map healPiece) = .ok (folded, changes) :=
    applyFills_ok filed fun piece member => by
      obtain ⟨fill, listed, rfl⟩ := List.mem_map.mp member
      exact positive fill listed
  have books : bookPieces config process.memory.portfolio (fills.map healPiece) =
      .ok (changes.foldl Portfolio.project folded) := by
    unfold bookPieces
    rw [folds]
  obtain ⟨ids, nets, cashLine⟩ := healPieces_book filed distinct fresh books
  have fold := applyFills_folded filed folds
  obtain ⟨count, moves⟩ := applyFills_moves filed keys (fun _ _ => rfl)
    (fun piece member => by
      obtain ⟨fill, listed, rfl⟩ := List.mem_map.mp member
      exact fresh fill listed) folds
  obtain ⟨ingestStamps, ingestCount, ingestOpened, ingestAccount⟩ := ingest_stamps folded snapshot
  obtain ⟨correctStamps, correctCount, correctOpened, correctPositions⟩ :=
    correct_stamps (folded.ingest snapshot).1 changes cash
  have posted : Posted folded (folded.ingest snapshot).1 (folded.ingest snapshot).2 := by
    cases snapshot with
    | none => exact ⟨rfl, fold.filed, fun _ => rfl, fun _ _ => rfl⟩
    | some state => exact ingestCollateral_posted state fold.filed
  have awaiting : Awaiting ((folded.ingest snapshot).1.correct changes cash) changes := by
    refine ⟨by rw [correctPositions]; exact posted.filed, fold.settled, ?_⟩
    intro change member
    rw [correctPositions, fold.held change member, posted.same]
  have same : SameBook ((folded.ingest snapshot).1.correct changes cash).positions
      folded.positions := by
    rw [correctPositions]
    exact ingest_sameBook snapshot fold.filed
  have projected := project_sameBook same awaiting fold.toAwaiting
  have stampedFold := stamped.applyFills folds
  have pieces : (fills.map fun fill => (fill.bookable, fill.side)) = fills.map healPiece := rfl
  by_cases nothing : (((fills.zip changes).filter fun pair => !pair.2.changes.isEmpty).map
      fun pair => pair.1.bookable.eventId).isEmpty && cash.isNone &&
      (folded.ingest snapshot).2.isEmpty
  · -- Nothing moved, so there was nothing to heal.
    have heal : process.memory.portfolio.applyHeal config fills cash snapshot = .ok none := by
      simp only [Portfolio.applyHeal, pieces, folds, nothing, if_true]
    have effects : checkpointHeal config process.memory process.store fills cash snapshot nowNs =
        .ok [] := by
      simp only [checkpointHeal, opened, heal]
      rfl
    rw [Bool.and_eq_true, Bool.and_eq_true, List.isEmpty_iff, List.map_eq_nil_iff,
      List.filter_eq_nil_iff] at nothing
    obtain ⟨⟨unmoved, noCash⟩, _⟩ := nothing
    have none_ : fills = [] := by
      cases fills with
      | nil => rfl
      | cons fill rest =>
          cases changes with
          | nil => cases count
          | cons change more =>
              have moved := unmoved (fill, change) List.mem_cons_self
              have some_ := moves change List.mem_cons_self
              simp [some_] at moved
    have noCorrection : cash = none := Option.isNone_iff_eq_none.mp noCash
    subst none_ noCorrection
    refine ⟨[], effects, ⟨filed, stamped, fun k id there => Or.inl there, ?_, ?_⟩, opened⟩
    · intro symbol
      exact (add_zero _).symm
    · exact (sub_zero _).symm
  · have heal : process.memory.portfolio.applyHeal config fills cash snapshot =
        .ok (some ((folded.ingest snapshot).1.correct changes cash,
          ⟨changes, ((fills.zip changes).filter fun pair => !pair.2.changes.isEmpty).map
            fun pair => pair.1.bookable.eventId, (folded.ingest snapshot).2⟩)) := by
      simp only [Portfolio.applyHeal, pieces, folds, nothing]
      rfl
    obtain ⟨effects, commits, memory, account⟩ : ∃ effects,
        checkpointHeal config process.memory process.store fills cash snapshot nowNs = .ok effects ∧
        (process.play effects).memory.portfolio =
          changes.foldl Portfolio.project ((folded.ingest snapshot).1.correct changes cash) ∧
        ∃ rows : LedgerTxn, (process.play effects).store = process.store.checkpointLedger rows := by
      simp only [checkpointHeal, opened, heal]
      refine ⟨_, rfl, rfl, ?_⟩
      rw [play_fold]
      dsimp only
      exact ⟨_, rfl⟩
    obtain ⟨projectStamps, projectCount, projectOpened⟩ := project_stamps changes
      ((folded.ingest snapshot).1.correct changes cash)
    refine ⟨effects, commits, ⟨?_, ?_, ?_, ?_, ?_⟩, ?_⟩
    · rw [memory, awaiting.project]
      exact awaiting.filed.setAll fun row member => by
        obtain ⟨change, held, rfl⟩ := List.mem_map.mp member
        exact awaiting.current_settled held
    · intro symbol stamp there
      rw [memory, projectStamps, correctStamps, ingestStamps] at there
      rw [memory, projectCount, correctCount, ingestCount]
      exact stampedFold symbol stamp there
    · intro k id there
      rw [memory, projected.ids k] at there
      exact ids k id there
    · intro symbol
      rw [memory, accountNet_congr projected]
      exact nets symbol
    · rw [memory]
      cases cash with
      | none =>
          rw [Option.elim_none, ← cashLine]
          refine netCash_congr ?_ projected
          rw [project_account, project_account]
          exact ingestAccount
      | some correction =>
          -- The target carries the cost basis the projection then files.
          unfold Portfolio.netCash
          rw [project_account, Option.elim_some, ← held_keyed awaiting]
          exact add_sub_cancel_right _ _
    · obtain ⟨rows, written⟩ := account
      unfold isOpened at opened ⊢
      rw [memory, projectOpened, correctOpened, ingestOpened, fold.opened, written,
        Store.checkpointLedger_account]
      rw [Bool.or_eq_true] at opened ⊢
      rcases opened with live | durable
      · exact Or.inl live
      · refine Or.inr ?_
        unfold Store.writeAccount
        split
        · rfl
        · rfl

/-- A heal with nothing to heal still ingests the buckets, and moves nothing else. -/
theorem checkpointHeal_nothing (config : Config) (snapshot : Option VenueAccountState)
    (nowNs : Nanos) (filed : Filed process.memory.portfolio.positions)
    (stamped : Stamped process.memory.portfolio)
    (opened : isOpened process.memory process.store = true) :
    ∃ effects, checkpointHeal config process.memory process.store [] none snapshot nowNs =
        .ok effects ∧
      Healed process.memory.portfolio (process.play effects).memory.portfolio [] none ∧
      isOpened (process.play effects).memory (process.play effects).store = true := by
  apply checkpointHeal_healed config none snapshot nowNs filed stamped opened
  · exact List.nodup_nil
  · intro fill member
    cases member
  · intro fill member
    cases member

end Spec

end Tickwright.Engine
