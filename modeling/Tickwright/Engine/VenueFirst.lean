/-
# Engine.VenueFirst -- fills the venue has made and the engine is about to book

The venue books a fill before the engine hears of it, so a pass that reads the
venue in between sees a gap that is gone by the next pass.  The confirm rule
tells such a gap from a real one by its identity, the figure and the amount,
across two passes.

The machine here interleaves passes with fills and bookings: the venue makes
fills, the engine books each later, and a pass starts, reads and classifies with
any of these between, on the one condition that what the last read saw is booked
before the next pass starts.  No gap is real in such a run.

* `finish_quiet_iff` reads off the state whether a pass heals;
* `passes_quiet_iff` is the run: no pass heals if and only if no pass reads fills
  still to be booked whose sum on a symbol, or whose cash, is the very gap the
  last pass saw and kept (`Apart`);
* `equal_fills_healed` is a run where two fills of one size are told apart by
  nothing, so the second is healed and then booked.
-/
import Tickwright.Engine.NetCash
import Tickwright.Engine.Converge

namespace Tickwright.Engine

open Tickwright.Domain Tickwright.Theory Tickwright.Store

set_option autoImplicit false

/-! ## Booking one fill -/

section Stamps

variable {config : Config} {portfolio after : Portfolio} {pieces : List Piece}
  {changes : List LedgerChange}

/-- A fresh fill raises the count and stamps its own symbol with it. -/
theorem applyFill_stamps {piece : Piece} {change : LedgerChange}
    (fresh : ¬ Seen portfolio piece)
    (folded : portfolio.applyFill config piece.1 piece.2 = .ok (after, change)) :
    after.fillsApplied = portfolio.fillsApplied + 1 ∧
      after.lastFills = portfolio.lastFills.set piece.1.symbol (portfolio.fillsApplied + 1) := by
  obtain ⟨fill, side⟩ := piece
  obtain ⟨_, _, _, _, ⟨seen, _, _, _⟩ | ⟨_, _, moves, _⟩⟩ := Portfolio.applyFill_cases folded
  · exact absurd seen fresh
  · have some_ : change.changes.isEmpty = false := by
      rw [moves, List.isEmpty_eq_false_iff]
      exact Position.booked_ne_nil _ _ _
    simp only [Portfolio.applyFill] at folded
    split at folded
    · cases folded
    · cases folded
      simp only at some_
      simp [some_]

/-- A batch of fresh fills on one symbol stamps it, and it alone. -/
theorem applyFills_stamps {symbol : Symbol} {start : Portfolio} (filed : Filed portfolio.positions)
    (distinct : (pieces.map Piece.key).Nodup)
    (same : ∀ piece ∈ pieces, portfolio.partition piece.key = start.partition piece.key)
    (fresh : ∀ piece ∈ pieces, ¬ Seen start piece)
    (onSymbol : ∀ piece ∈ pieces, piece.1.symbol = symbol)
    (folded : portfolio.applyFills config pieces = .ok (after, changes)) :
    after.fillsApplied = portfolio.fillsApplied + pieces.length ∧
      ∀ other, after.lastFills.get other =
        if other = symbol ∧ pieces ≠ [] then some after.fillsApplied
        else portfolio.lastFills.get other := by
  induction pieces generalizing portfolio changes with
  | nil => cases folded; exact ⟨rfl, fun other => (if_neg fun both => both.2 rfl).symm⟩
  | cons piece rest ih =>
      obtain ⟨absent, distinctRest⟩ := List.nodup_cons.mp distinct
      simp only [Portfolio.applyFills] at folded
      split at folded
      · cases folded
      · rename_i middle change first
        split at folded
        · cases folded
        · rename_i last later second
          cases folded
          obtain ⟨_, middleFiled, _, off, _⟩ := applyFill_lands filed first
          have sameRest : ∀ other ∈ rest,
              middle.partition other.key = start.partition other.key := by
            intro other member
            have ne : other.key ≠ piece.key := by
              intro is
              exact absent (is ▸ List.mem_map_of_mem member)
            rw [off _ ne, same other (List.mem_cons_of_mem _ member)]
          have here : ¬ Seen portfolio piece := by
            unfold Seen
            rw [same piece List.mem_cons_self]
            exact fresh piece List.mem_cons_self
          obtain ⟨one, stamp⟩ := applyFill_stamps here first
          obtain ⟨count, stamps⟩ := ih middleFiled distinctRest sameRest
            (fun other member => fresh other (List.mem_cons_of_mem _ member))
            (fun other member => onSymbol other (List.mem_cons_of_mem _ member)) second
          rw [onSymbol piece List.mem_cons_self] at stamp
          refine ⟨by rw [count, one, List.length_cons]; omega, ?_⟩
          intro other
          rw [stamps other, stamp, Dict.get_set]
          by_cases is : other = symbol
          · rw [if_pos (show other = symbol ∧ piece :: rest ≠ [] from ⟨is, List.cons_ne_nil _ _⟩),
              if_pos is.symm]
            cases rest with
            | nil => rw [if_neg fun both => both.2 rfl, count, one]; rfl
            | cons next more => rw [if_pos ⟨is, List.cons_ne_nil _ _⟩]
          · rw [if_neg fun both => is both.1, if_neg (Ne.symm is), if_neg fun both => is both.1]

end Stamps

/-- What one fill of an order moves a symbol's net by. -/
def signedOn (orders : Cloid → Order) (trades : Cloid → String → VenueFill) (trade : TradeKey)
    (symbol : Symbol) : Decimal :=
  if (orders trade.1).symbol = symbol then
    (orders trade.1).side.sign * (trades trade.1 trade.2).quantity
  else 0

/-- `checkpoint_fill` of one fill the venue made. -/
def bookFill (config : Config) (orders : Cloid → Order) (trades : Cloid → String → VenueFill)
    (process : Process) (trade : TradeKey) (tsNs : Nanos) : Except Fault (List Effect) :=
  let fill := trades trade.1 trade.2
  checkpointFill config process.memory process.store (orders trade.1) trade.2 fill.quantity
    fill.price fill.cumQty fill.fee tsNs

/-- What booking one new fill leaves. -/
structure BooksOne (orders : Cloid → Order) (trades : Cloid → String → VenueFill) (trade : TradeKey)
    (before after : Process) : Prop where
  standing : Standing after
  ids : ∀ k id, id ∈ (after.memory.portfolio.partition k).appliedEventIds →
    id ∈ (before.memory.portfolio.partition k).appliedEventIds ∨ tradeOf id = some trade
  net : ∀ symbol, after.memory.portfolio.accountNet symbol =
    before.memory.portfolio.accountNet symbol + signedOn orders trades trade symbol
  cash : after.memory.portfolio.netCash =
    before.memory.portfolio.netCash - outlayOf orders trades trade
  count : before.memory.portfolio.fillsApplied < after.memory.portfolio.fillsApplied
  stamps : ∀ symbol, after.memory.portfolio.lastFills.get symbol =
    if symbol = (orders trade.1).symbol then some after.memory.portfolio.fillsApplied
    else before.memory.portfolio.lastFills.get symbol

section Booking

variable {config : Config} {orders : Cloid → Order} {trades : Cloid → String → VenueFill}
  {process : Process} {trade : TradeKey} {tsNs : Nanos} {effects : List Effect}

/-- **Booking a fill the ledger has not seen.** -/
theorem bookFill_booksOne (own : ∀ cloid, (orders cloid).cloid = cloid)
    (standing : Standing process)
    (deliverable : Deliverable config (orders trade.1) (trades trade.1 trade.2))
    (new : ∀ k id, id ∈ (process.memory.portfolio.partition k).appliedEventIds →
      tradeOf id ≠ some trade)
    (books : bookFill config orders trades process trade tsNs = .ok effects) :
    BooksOne orders trades trade process (process.play effects) := by
  obtain ⟨pieces, cut, are⟩ : ∃ pieces, piecesOf config (orders trade.1) trade.2 _ _ _ _ =
      .ok pieces ∧ Pieces (orders trade.1) trade.2 _ pieces := pieces_deliver deliverable
  have named : ∀ piece ∈ pieces, tradeOf piece.1.eventId = some trade := by
    intro piece member
    rw [are.named piece member, own]
  have unseen : ∀ piece ∈ pieces, ¬ Seen process.memory.portfolio piece :=
    fun piece member seen => new _ _ seen (named piece member)
  have all : freshOf process.memory.portfolio pieces = pieces := by
    unfold freshOf
    rw [List.filter_eq_self]
    exact fun piece member => decide_eq_true (unseen piece member)
  have some_ : pieces ≠ [] := by
    rintro rfl
    have zero : (0 : Decimal) = (orders trade.1).side.sign * (trades trade.1 trade.2).quantity :=
      are.signed
    have signed : (orders trade.1).side.sign ≠ 0 := by
      cases (orders trade.1).side <;> norm_num [Side.sign]
    exact mul_ne_zero signed deliverable.positive.ne' zero.symm
  unfold bookFill checkpointFill at books
  rw [standing.opened] at books
  simp only [Bool.not_true, Bool.false_eq_true, if_false, cut] at books
  have booked := commitFolds_books books
  obtain ⟨_, _, filed, _, _⟩ := bookPieces_lands standing.filed are.distinct booked
  obtain ⟨folded, changes, folds, is⟩ := commitFolds_cases books
  obtain ⟨count, stamps⟩ := applyFills_stamps standing.filed are.distinct (fun _ _ => rfl) unseen
    are.symbol folds
  obtain ⟨projectStamps, projectCount, projectOpened⟩ := project_stamps changes folded
  have memory : (process.play effects).memory.portfolio =
      changes.foldl Portfolio.project folded := by
    rw [is]
    rfl
  have fold := applyFills_folded standing.filed folds
  refine ⟨⟨filed, ?_, ?_⟩, ?_, ?_, ?_, ?_, ?_⟩
  · intro symbol stamp there
    rw [memory, projectStamps] at there
    rw [memory, projectCount]
    exact standing.stamped.applyFills folds symbol stamp there
  · have opened := standing.opened
    unfold isOpened at opened ⊢
    rw [memory, projectOpened, fold.opened, is, play_fold]
    rw [Bool.or_eq_true] at opened ⊢
    refine opened.imp id fun durable => ?_
    rw [Store.checkpointLedger_account]
    unfold Store.writeAccount
    split
    · rfl
    · rfl
  · intro k id there
    rcases (bookPieces_filed standing.filed are.distinct booked k id).mp there with
      old | ⟨piece, member, _, rfl⟩
    · exact Or.inl old
    · exact Or.inr (named piece member)
  · intro symbol
    rw [bookPieces_net standing.filed are.distinct booked, all]
    congr 1
    have onSymbol : (pieces.map fun piece : Piece =>
        if piece.1.symbol = symbol then piece.signed else 0) =
        pieces.map fun piece : Piece =>
          if (orders trade.1).symbol = symbol then piece.signed else 0 := by
      apply List.map_congr_left
      intro piece member
      rw [are.symbol piece member]
    rw [onSymbol]
    unfold signedOn
    by_cases here : (orders trade.1).symbol = symbol
    · simp only [if_pos here]
      exact are.signed
    · simp only [if_neg here]
      exact List.sum_map_zero
  · rw [bookPieces_netCash standing.filed are.distinct booked, all, are.outlay]
    rfl
  · rw [memory, projectCount, count]
    exact Nat.lt_add_of_pos_right (List.length_pos_of_ne_nil some_)
  · intro symbol
    rw [memory, projectStamps, projectCount, stamps symbol]
    by_cases here : symbol = (orders trade.1).symbol
    · rw [if_pos ⟨here, some_⟩, if_pos here]
    · rw [if_neg fun both => here both.1, if_neg here]

end Booking

/-! ## Passes interleaved with fills and bookings -/

/-- What one venue read returned, beside the fills the venue had made by then. -/
structure VenueRead where
  snapshot : VenueAccountState
  made : Finset TradeKey

/-- A pass under way: the fill count and the fills booked when it started, and
what its read returned, once it has. -/
structure PassUnderWay where
  fillsBefore : ℕ
  booked : Finset TradeKey
  read : Option VenueRead := none

/-- One pass's findings, and whether the account mode allowed a cash heal. -/
structure PassRecord where
  findings : ReconcileFindings
  modeVerified : Bool

/-- A pass that wrote no size and no cash. -/
def PassRecord.HealsNothing (record : PassRecord) : Prop :=
  record.findings.heals = [] ∧ (record.modeVerified = true → record.findings.cash = none)

/-- The account cadence beside the venue it reads: the fills `made` there, the
ones `booked` here, and the ones the last read saw. -/
structure Cadence where
  process : Process
  made : Finset TradeKey := ∅
  booked : Finset TradeKey := ∅
  lastRead : Finset TradeKey := ∅
  pass : Option PassUnderWay := none
  previous : Finset Finding := ∅
  records : List PassRecord := []

inductive CadenceStep
  /-- The venue makes a fill. -/
  | fill (trade : TradeKey)
  /-- The engine books a fill the venue made. -/
  | book (trade : TradeKey) (tsNs : Nanos)
  /-- A pass starts and reads the ledger's fill count. -/
  | start
  /-- Its venue read returns. -/
  | read (snapshot : VenueAccountState)
  /-- It reads the ledger, classifies and writes its heals. -/
  | finish (nowNs : Nanos) (modeVerified : Bool)

namespace Cadence

variable (config : Config) (orders : Cloid → Order) (trades : Cloid → String → VenueFill)

def book (cadence : Cadence) (trade : TradeKey) (tsNs : Nanos) : Option Cadence :=
  if trade ∈ cadence.made ∧ trade ∉ cadence.booked then
    match bookFill config orders trades cadence.process trade tsNs with
    | .error _ => none
    | .ok effects =>
        some { cadence with
          process := cadence.process.play effects
          booked := insert trade cadence.booked }
  else none

/-- A pass starts once everything the last read saw is booked. -/
def start (cadence : Cadence) : Option Cadence :=
  if cadence.pass.isNone = true ∧ cadence.lastRead ⊆ cadence.booked then
    some { cadence with
      pass := some
        { fillsBefore := cadence.process.memory.portfolio.fillsApplied
          booked := cadence.booked } }
  else none

def read (cadence : Cadence) (snapshot : VenueAccountState) : Option Cadence :=
  cadence.pass.bind fun pass =>
    if pass.read.isNone then
      some { cadence with
        lastRead := cadence.made
        pass := some { pass with read := some ⟨snapshot, cadence.made⟩ } }
    else none

/-- The rest of a pass; the plan it writes is the one it classified. -/
def finish (cadence : Cadence) (nowNs : Nanos) (modeVerified : Bool) : Option Cadence :=
  cadence.pass.bind fun pass => pass.read.bind fun read =>
    match reconcileAccount config modeVerified read.snapshot pass.fillsBefore nowNs cadence.process
        cadence.previous with
    | .error _ => none
    | .ok (after, findings) =>
        some { cadence with
          process := after
          pass := none
          previous := findings.seen
          records := cadence.records ++ [⟨findings, modeVerified⟩] }

def step (cadence : Cadence) : CadenceStep → Option Cadence
  | .fill trade =>
      if trade ∈ cadence.made then none
      else some { cadence with made := insert trade cadence.made }
  | .book trade tsNs => cadence.book config orders trades trade tsNs
  | .start => cadence.start
  | .read snapshot => cadence.read snapshot
  | .finish nowNs modeVerified => cadence.finish config nowNs modeVerified

def machine : Machine Cadence CadenceStep where
  step := Cadence.step config orders trades

end Cadence

/-! ## What the run promises, and what a pass can mistake -/

/-- A trade whose fill the ledger booked before the run. -/
def AlreadyBooked (process : Process) (trade : TradeKey) : Prop :=
  ∃ k, ∃ id ∈ (process.memory.portfolio.partition k).appliedEventIds, tradeOf id = some trade

section Gaps

variable (config : Config) (orders : Cloid → Order) (trades : Cloid → String → VenueFill)
  (opening : Process)

/-- A snapshot that is the opening ledger and the fills made since. -/
structure Truthful (read : VenueRead) : Prop where
  size : ∀ symbol, Portfolio.venueSize read.snapshot symbol =
    opening.memory.portfolio.accountNet symbol +
      ∑ trade ∈ read.made, signedOn orders trades trade symbol
  cash : venueNetCash read.snapshot =
    opening.memory.portfolio.netCash - ∑ trade ∈ read.made, outlayOf orders trades trade

/-- What a run's steps are: new fills of the engine's orders, and true reads. -/
def Promised (cadence : Cadence) : CadenceStep → Prop
  | .fill trade => Deliverable config (orders trade.1) (trades trade.1 trade.2) ∧
      ¬ AlreadyBooked opening trade
  | .read snapshot => Truthful orders trades opening ⟨snapshot, cadence.made⟩
  | _ => True

/-- What the fills a read saw and the engine has yet to book move a symbol by. -/
def pendingSize (read : VenueRead) (booked : Finset TradeKey) (symbol : Symbol) : Decimal :=
  ∑ trade ∈ read.made \ booked, signedOn orders trades trade symbol

/-- What those fills put on the account. -/
def pendingOutlay (read : VenueRead) (booked : Finset TradeKey) : Decimal :=
  ∑ trade ∈ read.made \ booked, outlayOf orders trades trade

/-- A symbol the engine booked a fill of since the pass started. -/
def MovedSince (pass : PassUnderWay) (booked : Finset TradeKey) (symbol : Symbol) : Prop :=
  ∃ trade ∈ booked \ pass.booked, (orders trade.1).symbol = symbol

/-- No symbol's pending size is the size gap the last pass saw on it, unless a
fill was booked inside the read or the venue posts no entry price. -/
def SizesApart (cadence : Cadence) (pass : PassUnderWay) (read : VenueRead) : Prop :=
  ∀ symbol, MovedSince orders pass cadence.booked symbol ∨
    pendingSize orders trades read cadence.booked symbol = 0 ∨
    (.signedSize, some symbol, pendingSize orders trades read cadence.booked symbol) ∉
      cadence.previous ∨
    ∀ price, (entryPrices read.snapshot).get symbol ≠ some (some price)

/-- Nor are the pending fills' sizes all zero and their cash, in the venue's
unit, the cash gap the last pass saw. -/
def CashApart (cadence : Cadence) (pass : PassUnderWay) (read : VenueRead) : Prop :=
  cadence.booked ≠ pass.booked ∨
    (∃ symbol, pendingSize orders trades read cadence.booked symbol ≠ 0) ∨
    quantize cadence.process.memory.portfolio.netCash read.snapshot.cashQuantum =
      quantize (cadence.process.memory.portfolio.netCash -
        pendingOutlay orders trades read cadence.booked) read.snapshot.cashQuantum ∨
    (.netCash, none, -pendingOutlay orders trades read cadence.booked) ∉ cadence.previous

/-- The fills a pass read and the engine has yet to book are told apart from what
the last pass saw. -/
def Apart (cadence : Cadence) : CadenceStep → Prop
  | .finish _ modeVerified => ∀ pass read, cadence.pass = some pass → pass.read = some read →
      SizesApart orders trades cadence pass read ∧
        (modeVerified = true → CashApart orders trades cadence pass read)
  | _ => True

/-! ## The invariant of a run that healed nothing -/

/-- What a pass under way can rely on. -/
structure UnderWay (cadence : Cadence) (pass : PassUnderWay) : Prop where
  within : pass.booked ⊆ cadence.booked
  before : pass.fillsBefore ≤ cadence.process.memory.portfolio.fillsApplied
  moved : ∀ symbol,
    (∃ stamp, cadence.process.memory.portfolio.lastFills.get symbol = some stamp ∧
      pass.fillsBefore < stamp) ↔ MovedSince orders pass cadence.booked symbol
  read : ∀ read, pass.read = some read →
    pass.booked ⊆ read.made ∧ Truthful orders trades opening read

/-- **The ledger is the opening one and the fills booked since, each once.** -/
structure Tracked (cadence : Cadence) : Prop where
  standing : Standing cadence.process
  within : cadence.booked ⊆ cadence.made
  deliverable : ∀ trade ∈ cadence.made,
    Deliverable config (orders trade.1) (trades trade.1 trade.2) ∧ ¬ AlreadyBooked opening trade
  filed : ∀ trade, AlreadyBooked cadence.process trade →
    AlreadyBooked opening trade ∨ trade ∈ cadence.booked
  net : ∀ symbol, cadence.process.memory.portfolio.accountNet symbol =
    opening.memory.portfolio.accountNet symbol +
      ∑ trade ∈ cadence.booked, signedOn orders trades trade symbol
  cash : cadence.process.memory.portfolio.netCash =
    opening.memory.portfolio.netCash - ∑ trade ∈ cadence.booked, outlayOf orders trades trade
  pass : ∀ pass, cadence.pass = some pass → UnderWay orders trades opening cadence pass

end Gaps

section Steps

variable {config : Config} {orders : Cloid → Order} {trades : Cloid → String → VenueFill}
  {opening : Process} {cadence after : Cadence}

theorem Tracked.initial (standing : Standing opening) :
    Tracked config orders trades opening { process := opening } where
  standing := standing
  within := Finset.Subset.refl _
  deliverable _ member := absurd member (Finset.notMem_empty _)
  filed _ booked := Or.inl booked
  net _ := by rw [Finset.sum_empty, add_zero]
  cash := by rw [Finset.sum_empty, sub_zero]
  pass := nofun

theorem Tracked.fill (tracked : Tracked config orders trades opening cadence) {trade : TradeKey}
    (promised : Deliverable config (orders trade.1) (trades trade.1 trade.2) ∧
      ¬ AlreadyBooked opening trade) :
    Tracked config orders trades opening
      { cadence with made := insert trade cadence.made } where
  standing := tracked.standing
  within := tracked.within.trans (Finset.subset_insert _ _)
  deliverable other member := by
    rcases Finset.mem_insert.mp member with rfl | old
    · exact promised
    · exact tracked.deliverable other old
  filed := tracked.filed
  net := tracked.net
  cash := tracked.cash
  pass pass there := ⟨(tracked.pass pass there).within, (tracked.pass pass there).before,
    (tracked.pass pass there).moved, (tracked.pass pass there).read⟩

/-- **Booking a pending fill** keeps the count, and marks its symbol as moved. -/
theorem Tracked.book (own : ∀ cloid, (orders cloid).cloid = cloid)
    (tracked : Tracked config orders trades opening cadence) {trade : TradeKey} {tsNs : Nanos}
    (books : cadence.book config orders trades trade tsNs = some after) :
    Tracked config orders trades opening after := by
  unfold Cadence.book at books
  split at books
  · rename_i pending
    obtain ⟨made, unbooked⟩ := pending
    split at books
    · cases books
    · rename_i effects booked
      cases books
      obtain ⟨deliverable, unseen⟩ := tracked.deliverable trade made
      have new : ∀ k id, id ∈ (cadence.process.memory.portfolio.partition k).appliedEventIds →
          tradeOf id ≠ some trade := by
        intro k id there named
        rcases tracked.filed trade ⟨k, id, there, named⟩ with early | late
        · exact unseen early
        · exact unbooked late
      have leaves := bookFill_booksOne own tracked.standing deliverable new booked
      refine ⟨leaves.standing, ?_, tracked.deliverable, ?_, ?_, ?_, ?_⟩
      · exact Finset.insert_subset made tracked.within
      · rintro other ⟨k, id, there, named⟩
        rcases leaves.ids k id there with old | is
        · exact (tracked.filed other ⟨k, id, old, named⟩).imp_right
            fun held => Finset.mem_insert_of_mem held
        · rw [is] at named
          cases named
          exact Or.inr (Finset.mem_insert_self _ _)
      · intro symbol
        rw [leaves.net symbol, tracked.net symbol, Finset.sum_insert unbooked]
        ring
      · rw [leaves.cash, tracked.cash, Finset.sum_insert unbooked]
        ring
      · intro pass there
        have under := tracked.pass pass there
        have notIn : trade ∉ pass.booked := fun held => unbooked (under.within held)
        refine ⟨under.within.trans (Finset.subset_insert _ _),
          under.before.trans leaves.count.le, ?_, under.read⟩
        intro symbol
        rw [leaves.stamps symbol]
        by_cases here : symbol = (orders trade.1).symbol
        · rw [if_pos here]
          refine iff_of_true ⟨_, rfl, lt_of_le_of_lt under.before leaves.count⟩
            ⟨trade, ?_, here.symm⟩
          exact Finset.mem_sdiff.mpr ⟨Finset.mem_insert_self _ _, notIn⟩
        · rw [if_neg here, under.moved symbol]
          constructor
          · rintro ⟨other, member, is⟩
            obtain ⟨held, absent⟩ := Finset.mem_sdiff.mp member
            exact ⟨other, Finset.mem_sdiff.mpr ⟨Finset.mem_insert_of_mem held, absent⟩, is⟩
          · rintro ⟨other, member, is⟩
            obtain ⟨held, absent⟩ := Finset.mem_sdiff.mp member
            rcases Finset.mem_insert.mp held with rfl | old
            · exact absurd is.symm here
            · exact ⟨other, Finset.mem_sdiff.mpr ⟨old, absent⟩, is⟩
  · cases books

theorem Tracked.start (tracked : Tracked config orders trades opening cadence)
    (starts : cadence.start = some after) : Tracked config orders trades opening after := by
  unfold Cadence.start at starts
  split at starts
  · cases starts
    refine ⟨tracked.standing, tracked.within, tracked.deliverable, tracked.filed, tracked.net,
      tracked.cash, ?_⟩
    intro pass there
    cases there
    refine ⟨Finset.Subset.refl _, le_refl _, ?_, nofun⟩
    intro symbol
    refine iff_of_false ?_ ?_
    · rintro ⟨stamp, stamped, above⟩
      exact absurd (tracked.standing.stamped symbol stamp stamped) (not_le.mpr above)
    · rintro ⟨trade, member, _⟩
      rw [Finset.sdiff_self] at member
      exact Finset.notMem_empty _ member
  · cases starts

theorem Tracked.read (tracked : Tracked config orders trades opening cadence)
    {snapshot : VenueAccountState}
    (truthful : Truthful orders trades opening ⟨snapshot, cadence.made⟩)
    (reads : cadence.read snapshot = some after) : Tracked config orders trades opening after := by
  unfold Cadence.read at reads
  obtain ⟨pass, there, reads⟩ := Option.bind_eq_some_iff.mp reads
  split at reads
  · cases reads
    refine ⟨tracked.standing, tracked.within, tracked.deliverable, tracked.filed, tracked.net,
      tracked.cash, ?_⟩
    intro moved is
    cases is
    have under := tracked.pass pass there
    refine ⟨under.within, under.before, under.moved, ?_⟩
    intro read is
    cases is
    exact ⟨under.within.trans tracked.within, truthful⟩
  · cases reads

/-! ## What a pass heals -/

/-- Where no fill was booked inside the read, the size gap is what is pending. -/
theorem Tracked.size_gap (tracked : Tracked config orders trades opening cadence)
    {pass : PassUnderWay} {read : VenueRead} (under : cadence.pass = some pass)
    (returned : pass.read = some read) {symbol : Symbol}
    (still : ¬ MovedSince orders pass cadence.booked symbol) :
    Portfolio.venueSize read.snapshot symbol -
        cadence.process.memory.portfolio.accountNet symbol =
      pendingSize orders trades read cadence.booked symbol := by
  obtain ⟨before, truthful⟩ := (tracked.pass pass under).read read returned
  have unread : ∑ trade ∈ cadence.booked \ read.made, signedOn orders trades trade symbol = 0 := by
    apply Finset.sum_eq_zero
    intro trade member
    obtain ⟨held, absent⟩ := Finset.mem_sdiff.mp member
    unfold signedOn
    exact if_neg fun here => still
      ⟨trade, Finset.mem_sdiff.mpr ⟨held, fun early => absent (before early)⟩, here⟩
  have both : ∑ trade ∈ read.made \ cadence.booked, signedOn orders trades trade symbol -
      ∑ trade ∈ cadence.booked \ read.made, signedOn orders trades trade symbol =
      ∑ trade ∈ read.made, signedOn orders trades trade symbol -
        ∑ trade ∈ cadence.booked, signedOn orders trades trade symbol :=
    Finset.sum_sdiff_sub_sum_sdiff
  rw [unread, sub_zero] at both
  unfold pendingSize
  rw [truthful.size symbol, tracked.net symbol, both]
  ring

/-- Where nothing at all was, the cash gap is what the pending fills cost. -/
theorem Tracked.cash_gap (tracked : Tracked config orders trades opening cadence)
    {pass : PassUnderWay} {read : VenueRead} (under : cadence.pass = some pass)
    (returned : pass.read = some read) (still : cadence.booked = pass.booked) :
    venueNetCash read.snapshot = cadence.process.memory.portfolio.netCash -
      pendingOutlay orders trades read cadence.booked := by
  obtain ⟨before, truthful⟩ := (tracked.pass pass under).read read returned
  have within : cadence.booked ⊆ read.made := by
    rw [still]
    exact before
  have both := Finset.sum_sdiff within (f := fun trade => outlayOf orders trades trade)
  unfold pendingOutlay
  rw [truthful.cash, tracked.cash, ← both]
  ring

/-- A symbol stamped above the count is one moved, and the other way. -/
theorem Tracked.filledSince_iff (tracked : Tracked config orders trades opening cadence)
    {pass : PassUnderWay} (under : cadence.pass = some pass) (symbol : Symbol) :
    cadence.process.memory.portfolio.ledgerReading.filledSince pass.fillsBefore symbol = true ↔
      MovedSince orders pass cadence.booked symbol := by
  rw [← (tracked.pass pass under).moved symbol]
  show (cadence.process.memory.portfolio.lastFills.get symbol).any _ = true ↔ _
  rw [Option.any_eq_true]
  constructor
  · rintro ⟨stamp, there, above⟩
    exact ⟨stamp, there, of_decide_eq_true above⟩
  · rintro ⟨stamp, there, above⟩
    exact ⟨stamp, there, decide_eq_true above⟩

theorem Tracked.moved_iff (tracked : Tracked config orders trades opening cadence)
    {pass : PassUnderWay} (under : cadence.pass = some pass) :
    cadence.process.memory.portfolio.ledgerReading.moved pass.fillsBefore = true ↔
      cadence.booked ≠ pass.booked := by
  have stamped := (tracked.pass pass under).moved
  have within := (tracked.pass pass under).within
  show cadence.process.memory.portfolio.lastFills.values.any _ = true ↔ _
  rw [List.any_eq_true]
  constructor
  · rintro ⟨stamp, member, above⟩ same
    obtain ⟨symbol, there⟩ := (Dict.mem_values _ _).mp member
    obtain ⟨trade, held, _⟩ := (stamped symbol).mp ⟨stamp, there, of_decide_eq_true above⟩
    rw [same, Finset.sdiff_self] at held
    exact Finset.notMem_empty _ held
  · intro differ
    obtain ⟨trade, held⟩ : (cadence.booked \ pass.booked).Nonempty := by
      rw [Finset.sdiff_nonempty]
      exact fun back => differ (Finset.Subset.antisymm back within)
    obtain ⟨stamp, there, above⟩ := (stamped (orders trade.1).symbol).mpr ⟨trade, held, rfl⟩
    exact ⟨stamp, (Dict.mem_values _ _).mpr ⟨_, there⟩, decide_eq_true above⟩

section OnePass

variable {pass : PassUnderWay} {read : VenueRead} {nowNs : Nanos}

/-- **A pass heals no size exactly where what is pending is told apart.** -/
theorem Tracked.heals_nil_iff (tracked : Tracked config orders trades opening cadence)
    (under : cadence.pass = some pass) (returned : pass.read = some read) :
    (classify read.snapshot cadence.process.memory.portfolio.ledgerReading nowNs pass.fillsBefore
        cadence.previous).heals = [] ↔ SizesApart orders trades cadence pass read := by
  have finding : ∀ symbol, ¬ MovedSince orders pass cadence.booked symbol →
      (sizeFinding read.snapshot cadence.process.memory.portfolio symbol).finding =
        (.signedSize, some symbol, pendingSize orders trades read cadence.booked symbol) := by
    intro symbol still
    rw [← tracked.size_gap under returned still]
    rfl
  constructor
  · intro none_ symbol
    by_contra unsafe_
    simp only [not_or, not_forall, not_not] at unsafe_
    obtain ⟨still, gap, seen, price, posted⟩ := unsafe_
    have differ : cadence.process.memory.portfolio.accountNet symbol ≠
        Portfolio.venueSize read.snapshot symbol := by
      intro same
      apply gap
      rw [← tracked.size_gap under returned still, same, sub_self]
    have calm : cadence.process.memory.portfolio.ledgerReading.filledSince pass.fillsBefore symbol =
        false := by
      rw [Bool.eq_false_iff]
      exact fun moved => still ((tracked.filledSince_iff under symbol).mp moved)
    rw [← finding symbol still] at seen
    have healed : (sizeFinding read.snapshot cadence.process.memory.portfolio symbol).healAt symbol
        price nowNs ∈ (classify read.snapshot cadence.process.memory.portfolio.ledgerReading nowNs
          pass.fillsBefore cadence.previous).heals :=
      mem_heals.mpr ⟨symbol, price, differ, calm, seen, posted, rfl⟩
    rw [none_] at healed
    exact List.not_mem_nil healed
  · intro apart
    rw [List.eq_nil_iff_forall_not_mem]
    intro heal planned
    obtain ⟨symbol, price, differ, calm, seen, posted, rfl⟩ := mem_heals.mp planned
    have still : ¬ MovedSince orders pass cadence.booked symbol := by
      intro moved
      rw [(tracked.filledSince_iff under symbol).mpr moved] at calm
      cases calm
    rw [finding symbol still] at seen
    rcases apart symbol with moved | zero | unseen | unpriced
    · exact still moved
    · rw [← tracked.size_gap under returned still, sub_eq_zero] at zero
      exact differ zero.symm
    · exact unseen seen
    · exact unpriced price posted

/-- With no size healed, a size gap alone holds back the cash heal. -/
theorem cash_none_of_gap {portfolio : Portfolio} {snapshot : VenueAccountState}
    {previous : Finset Finding} {fillsBefore : ℕ}
    (noHeals : (classify snapshot portfolio.ledgerReading nowNs fillsBefore previous).heals = [])
    (gap : sizes snapshot portfolio.ledgerReading ≠ []) :
    (classify snapshot portfolio.ledgerReading nowNs fillsBefore previous).cash = none := by
  have few : ((List.map (sizeVerdict snapshot portfolio.ledgerReading fillsBefore nowNs previous)
      (sizes snapshot portfolio.ledgerReading)).filterMap Verdict.heal?).length <
      (List.map (sizeVerdict snapshot portfolio.ledgerReading fillsBefore nowNs previous)
        (sizes snapshot portfolio.ledgerReading)).length := by
    have none_ :
        (List.map _ (sizes snapshot portfolio.ledgerReading)).filterMap Verdict.heal? = [] :=
      noHeals
    rw [none_, List.length_map]
    exact List.length_pos_of_ne_nil gap
  show (netCashFinding _ _ _).bind _ = none
  rw [Option.bind_eq_none_iff]
  intro divergence _
  unfold cashVerdict
  rw [if_pos few]
  split
  · rfl
  · split
    · rfl
    · split <;> rfl

/-- **Nor any cash, where its gap is told apart too.** -/
theorem Tracked.cash_none_iff (tracked : Tracked config orders trades opening cadence)
    (under : cadence.pass = some pass) (returned : pass.read = some read)
    (noHeals : (classify read.snapshot cadence.process.memory.portfolio.ledgerReading nowNs
      pass.fillsBefore cadence.previous).heals = []) :
    (classify read.snapshot cadence.process.memory.portfolio.ledgerReading nowNs pass.fillsBefore
        cadence.previous).cash = none ↔ CashApart orders trades cadence pass read := by
  have moved := tracked.moved_iff under
  by_cases still : cadence.booked = pass.booked
  · have unmoved :
        cadence.process.memory.portfolio.ledgerReading.moved pass.fillsBefore = false := by
      rw [Bool.eq_false_iff]
      exact fun is => moved.mp is still
    have calm : ∀ symbol, ¬ MovedSince orders pass cadence.booked symbol := by
      rintro symbol ⟨trade, member, _⟩
      rw [still, Finset.sdiff_self] at member
      exact Finset.notMem_empty _ member
    have gaps : ∀ symbol, cadence.process.memory.portfolio.accountNet symbol =
        Portfolio.venueSize read.snapshot symbol ↔
          pendingSize orders trades read cadence.booked symbol = 0 := by
      intro symbol
      rw [← tracked.size_gap under returned (calm symbol), sub_eq_zero]
      exact eq_comm
    have line := tracked.cash_gap under returned still
    by_cases agree : SizesAgree read.snapshot cadence.process.memory.portfolio
    · have noSizes := sizes_eq_nil.mpr agree
      have zero : ¬ ∃ symbol, pendingSize orders trades read cadence.booked symbol ≠ 0 := by
        rintro ⟨symbol, gap⟩
        exact gap ((gaps symbol).mp (agree symbol))
      have identity : (cashFinding read.snapshot cadence.process.memory.portfolio).finding =
          (.netCash, none, -pendingOutlay orders trades read cadence.booked) := by
        unfold Divergence.finding cashFinding
        dsimp only
        rw [line, sub_sub_cancel_left]
      have cash : (classify read.snapshot cadence.process.memory.portfolio.ledgerReading nowNs
          pass.fillsBefore cadence.previous).cash = none ↔
          CashAgrees read.snapshot cadence.process.memory.portfolio ∨
            (.netCash, none, -pendingOutlay orders trades read cadence.booked) ∉
              cadence.previous := by
        show (netCashFinding _ _ _).bind _ = none ↔ _
        rw [netCashFinding_agree agree, noSizes, List.map_nil, ← identity]
        by_cases same : CashAgrees read.snapshot cadence.process.memory.portfolio
        · rw [if_pos same]
          exact iff_of_true rfl (Or.inl same)
        · rw [if_neg same, Option.bind_some]
          unfold cashVerdict
          rw [unmoved, if_neg Bool.false_ne_true]
          by_cases seen : (cashFinding read.snapshot
              cadence.process.memory.portfolio).finding ∈ cadence.previous
          · rw [if_neg (not_not.mpr seen)]
            refine iff_of_false ?_ fun either => either.elim same fun unseen => unseen seen
            exact fun heals => by cases heals
          · rw [if_pos seen]
            exact iff_of_true rfl (Or.inr seen)
      rw [cash]
      unfold CashApart CashAgrees
      rw [line]
      constructor
      · rintro (same | unseen)
        · exact Or.inr (Or.inr (Or.inl same))
        · exact Or.inr (Or.inr (Or.inr unseen))
      · rintro (differ | gap | same | unseen)
        · exact absurd still differ
        · exact absurd gap zero
        · exact Or.inl same
        · exact Or.inr unseen
    · have gap : ∃ symbol, pendingSize orders trades read cadence.booked symbol ≠ 0 := by
        by_contra none_
        rw [not_exists] at none_
        exact agree fun symbol => (gaps symbol).mpr (not_not.mp (none_ symbol))
      refine iff_of_true (cash_none_of_gap noHeals ?_) (Or.inr (Or.inl gap))
      exact fun none_ => agree (sizes_eq_nil.mp none_)
  · refine iff_of_true ?_ (Or.inl still)
    show (netCashFinding _ _ _).bind _ = none
    rw [Option.bind_eq_none_iff]
    intro divergence _
    unfold cashVerdict
    rw [moved.mpr still]
    rfl

end OnePass

theorem reconcileAccount_ok {modeVerified : Bool} {snapshot : VenueAccountState} {fillsBefore : ℕ}
    {nowNs : Nanos} {process left : Process} {previous : Finset Finding}
    {findings : ReconcileFindings}
    (passed : reconcileAccount config modeVerified snapshot fillsBefore nowNs process previous =
      .ok (left, findings)) :
    findings = classify snapshot process.memory.portfolio.ledgerReading nowNs fillsBefore previous ∧
      ∃ effects, checkpointHeal config process.memory process.store
        (findings.heals.map SizeHeal.fill)
        (if modeVerified then findings.cash.map CashHeal.correction else none) (some snapshot)
        nowNs = .ok effects ∧ left = process.play effects := by
  unfold reconcileAccount at passed
  simp only at passed
  split at passed
  · cases passed
  · rename_i effects healed
    cases passed
    exact ⟨rfl, effects, healed, rfl⟩

/-- **One pass**: whether it heals is read off the state it finds, and one that
heals nothing leaves the ledger as it was. -/
theorem Tracked.finish (tracked : Tracked config orders trades opening cadence) {nowNs : Nanos}
    {modeVerified : Bool} (finishes : cadence.finish config nowNs modeVerified = some after) :
    ∃ record, after.records = cadence.records ++ [record] ∧
      (record.HealsNothing ↔ Apart orders trades cadence (.finish nowNs modeVerified)) ∧
      (record.HealsNothing → Tracked config orders trades opening after) := by
  unfold Cadence.finish at finishes
  obtain ⟨pass, under, finishes⟩ := Option.bind_eq_some_iff.mp finishes
  obtain ⟨read, returned, finishes⟩ := Option.bind_eq_some_iff.mp finishes
  split at finishes
  · cases finishes
  · rename_i left findings passed
    cases finishes
    obtain ⟨classified, effects, healed, rfl⟩ := reconcileAccount_ok passed
    refine ⟨⟨findings, modeVerified⟩, rfl, ?_, ?_⟩
    · have sizesIff : findings.heals = [] ↔ SizesApart orders trades cadence pass read := by
        rw [classified]
        exact tracked.heals_nil_iff under returned
      constructor
      · rintro ⟨noHeals, noCash⟩ some_ other here there
        rw [under] at here
        cases here
        rw [returned] at there
        cases there
        refine ⟨sizesIff.mp noHeals, fun verified => ?_⟩
        have none_ := noCash verified
        rw [classified] at noHeals none_
        exact (tracked.cash_none_iff under returned noHeals).mp none_
      · intro apart
        obtain ⟨sizesApart, cashApart⟩ := apart pass read under returned
        have noHeals := sizesIff.mpr sizesApart
        refine ⟨noHeals, fun verified => ?_⟩
        show findings.cash = none
        rw [classified] at noHeals ⊢
        exact (tracked.cash_none_iff under returned noHeals).mpr (cashApart verified)
    · rintro ⟨noHeals, noCash⟩
      have gated :
          (if modeVerified then findings.cash.map CashHeal.correction else none) = none := by
        split
        · rename_i verified
          have none_ : findings.cash = none := noCash verified
          rw [none_]
          rfl
        · rfl
      have heals : findings.heals = [] := noHeals
      rw [heals, List.map_nil, gated] at healed
      obtain ⟨same, written, leaves, opened⟩ :=
        checkpointHeal_nothing config (some read.snapshot) nowNs tracked.standing.filed
          tracked.standing.stamped tracked.standing.opened
      rw [healed] at written
      cases written
      refine ⟨⟨leaves.filed, leaves.stamped, opened⟩, tracked.within, tracked.deliverable,
        ?_, ?_, ?_, nofun⟩
      · rintro trade ⟨k, id, there, named⟩
        rcases leaves.ids k id there with old | ⟨fill, member, _⟩
        · exact tracked.filed trade ⟨k, id, old, named⟩
        · cases member
      · intro symbol
        rw [leaves.net symbol, List.map_nil, List.sum_nil, add_zero]
        exact tracked.net symbol
      · rw [leaves.netCash, Option.elim_none, List.map_nil, List.sum_nil, sub_zero]
        exact tracked.cash

end Steps

/-! ## The run -/

section Run

variable {config : Config} {orders : Cloid → Order} {trades : Cloid → String → VenueFill}
  {opening : Process}

/-- Only a finished pass adds a record. -/
theorem step_records {cadence after : Cadence} {step : CadenceStep}
    (steps : (Cadence.machine config orders trades).step cadence step = some after) :
    ∃ more, after.records = cadence.records ++ more ∧
      (more = [] ∨ ∃ nowNs modeVerified, step = .finish nowNs modeVerified) := by
  cases step with
  | fill trade =>
      have made : (if trade ∈ cadence.made then none
          else some { cadence with made := insert trade cadence.made }) = some after := steps
      split at made
      · cases made
      · cases made
        exact ⟨[], (List.append_nil _).symm, Or.inl rfl⟩
  | book trade tsNs =>
      have books : cadence.book config orders trades trade tsNs = some after := steps
      unfold Cadence.book at books
      split at books
      · split at books
        · cases books
        · cases books
          exact ⟨[], (List.append_nil _).symm, Or.inl rfl⟩
      · cases books
  | start =>
      have starts : cadence.start = some after := steps
      unfold Cadence.start at starts
      split at starts
      · cases starts
        exact ⟨[], (List.append_nil _).symm, Or.inl rfl⟩
      · cases starts
  | read snapshot =>
      have reads : cadence.read snapshot = some after := steps
      unfold Cadence.read at reads
      obtain ⟨pass, _, reads⟩ := Option.bind_eq_some_iff.mp reads
      split at reads
      · cases reads
        exact ⟨[], (List.append_nil _).symm, Or.inl rfl⟩
      · cases reads
  | finish nowNs modeVerified =>
      have finishes : cadence.finish config nowNs modeVerified = some after := steps
      unfold Cadence.finish at finishes
      obtain ⟨pass, _, finishes⟩ := Option.bind_eq_some_iff.mp finishes
      obtain ⟨read, _, finishes⟩ := Option.bind_eq_some_iff.mp finishes
      split at finishes
      · cases finishes
      · cases finishes
        exact ⟨_, rfl, Or.inr ⟨nowNs, modeVerified, rfl⟩⟩

/-- **One step**: a pass that finishes, or a step that keeps the ledger tracked. -/
theorem Tracked.step (own : ∀ cloid, (orders cloid).cloid = cloid) {cadence after : Cadence}
    {step : CadenceStep} (tracked : Tracked config orders trades opening cadence)
    (promised : Promised config orders trades opening cadence step)
    (steps : (Cadence.machine config orders trades).step cadence step = some after) :
    (Apart orders trades cadence step ∧ after.records = cadence.records ∧
        Tracked config orders trades opening after) ∨
      ∃ record, after.records = cadence.records ++ [record] ∧
        (record.HealsNothing ↔ Apart orders trades cadence step) ∧
        (record.HealsNothing → Tracked config orders trades opening after) := by
  have quiet : (∀ nowNs modeVerified, step ≠ .finish nowNs modeVerified) →
      after.records = cadence.records := by
    intro other
    obtain ⟨more, records, rfl | ⟨nowNs, modeVerified, rfl⟩⟩ := step_records steps
    · rw [records, List.append_nil]
    · exact absurd rfl (other nowNs modeVerified)
  cases step with
  | fill trade =>
      refine Or.inl ⟨trivial, quiet nofun, ?_⟩
      have made : (if trade ∈ cadence.made then none
          else some { cadence with made := insert trade cadence.made }) = some after := steps
      split at made
      · cases made
      · cases made
        exact tracked.fill promised
  | book trade tsNs => exact Or.inl ⟨trivial, quiet nofun, tracked.book own steps⟩
  | start => exact Or.inl ⟨trivial, quiet nofun, tracked.start steps⟩
  | read snapshot => exact Or.inl ⟨trivial, quiet nofun, tracked.read promised steps⟩
  | finish nowNs modeVerified => exact Or.inr (tracked.finish steps)

/-- A record stays a record. -/
theorem records_run {cadence last : Cadence} {steps : List CadenceStep}
    (ran : (Cadence.machine config orders trades).run cadence steps = some last)
    {record : PassRecord} (member : record ∈ cadence.records) : record ∈ last.records := by
  refine Machine.run_induct (fun at_ => record ∈ at_.records) ?_ member ran
  intro before step after held steps
  obtain ⟨more, records, _⟩ := step_records steps
  rw [records]
  exact List.mem_append_left _ held

/-- From any state a run that healed nothing reached, no later pass heals if and
only if every later pass tells what is pending apart. -/
theorem Tracked.run (own : ∀ cloid, (orders cloid).cloid = cloid) {steps : List CadenceStep} :
    ∀ {cadence last : Cadence}, Tracked config orders trades opening cadence →
      (∀ record ∈ cadence.records, record.HealsNothing) →
      (Cadence.machine config orders trades).Meets (Promised config orders trades opening) cadence
        steps →
      (Cadence.machine config orders trades).run cadence steps = some last →
      ((∀ record ∈ last.records, record.HealsNothing) ↔
        (Cadence.machine config orders trades).Meets (Apart orders trades) cadence steps) ∧
      ((∀ record ∈ last.records, record.HealsNothing) →
        Tracked config orders trades opening last) := by
  induction steps with
  | nil =>
      intro cadence last tracked quiet _ ran
      cases ran
      exact ⟨iff_of_true quiet trivial, fun _ => tracked⟩
  | cons step rest ih =>
      intro cadence last tracked quiet promised ran
      obtain ⟨after, steps, more⟩ := Machine.run_cons_eq_some.mp ran
      have later := promised.2 after steps
      rcases tracked.step own promised.1 steps with
        ⟨apart, records, kept⟩ | ⟨record, records, healsIff, kept⟩
      · obtain ⟨both, tracks⟩ := ih kept (by rw [records]; exact quiet) later more
        refine ⟨both.trans ⟨fun meets => ⟨apart, fun t is => ?_⟩, fun meets => meets.2 after steps⟩,
          tracks⟩
        rw [steps] at is
        cases is
        exact meets
      · by_cases nothing : record.HealsNothing
        · have quietAfter : ∀ other ∈ after.records, other.HealsNothing := by
            rw [records]
            intro other member
            rcases List.mem_append.mp member with old | new
            · exact quiet other old
            · rw [List.mem_singleton.mp new]
              exact nothing
          obtain ⟨both, tracks⟩ := ih (kept nothing) quietAfter later more
          refine ⟨both.trans ⟨fun meets => ⟨healsIff.mp nothing, fun t is => ?_⟩,
            fun meets => meets.2 after steps⟩, tracks⟩
          rw [steps] at is
          cases is
          exact meets
        · have healed : ¬ ∀ other ∈ last.records, other.HealsNothing := by
            intro all
            refine nothing (all record (records_run more ?_))
            rw [records]
            exact List.mem_append_right _ (List.mem_singleton_self _)
          exact ⟨iff_of_false healed fun meets => nothing (healsIff.mpr meets.1),
            fun all => absurd all healed⟩

end Run

namespace Sample

def liveAccount : Config := { spec := { accountId := "live" } }

/-- A live ledger opened on a thousand. -/
def fundedLedger : Process where
  memory :=
    { cache := {}
      portfolio :=
        { account :=
            { accountId := "live", genesisCollateral := 1000, genesisTsNs := 0, cash := 1000 }
          opened := true } }
  store := Store.fresh

/-- Each order buys one BTC. -/
def buyOne (cloid : Cloid) : Order :=
  { closeOne with cloid := cloid, strategyId := carry, side := .buy }

def oneBought (_ : Cloid) (_ : String) : VenueFill := ⟨1, 100, 1, 0⟩

/-- What the venue reports after `size` BTC were bought at a hundred. -/
def bought (size : Decimal) : VenueAccountState where
  equity := 1000
  cashDecimals := 6
  positions :=
    [{ symbol := "BTC"
       signedSize := size
       entryPrice := some 100
       notional := 100 * size
       unrealizedPnl := 0
       isolatedCollateral := none }]

def firstBuy : TradeKey := ("0x01", "1")

def secondBuy : TradeKey := ("0x02", "1")

/-- Two buys of one size, each read by one pass before it is booked. -/
def equalFills : List CadenceStep :=
  [.fill firstBuy, .start, .read (bought 1), .finish 1 true, .book firstBuy 2,
    .fill secondBuy, .start, .read (bought 2), .finish 3 true, .book secondBuy 4]

theorem bought_truthful {size : Decimal} {made : Finset TradeKey}
    (onBtc : Portfolio.venueSize (bought size) "BTC" =
      fundedLedger.memory.portfolio.accountNet "BTC" +
        ∑ trade ∈ made, signedOn buyOne oneBought trade "BTC")
    (cash : venueNetCash (bought size) =
      fundedLedger.memory.portfolio.netCash - ∑ trade ∈ made, outlayOf buyOne oneBought trade) :
    Truthful buyOne oneBought fundedLedger ⟨bought size, made⟩ where
  size symbol := by
    by_cases here : symbol = "BTC"
    · rw [here]
      exact onBtc
    · have flat : Portfolio.venueSize (bought size) symbol = 0 := by
        unfold Portfolio.venueSize bought
        simp [Ne.symm here]
      have unmoved : ∑ trade ∈ made, signedOn buyOne oneBought trade symbol = 0 := by
        apply Finset.sum_eq_zero
        intro trade _
        exact if_neg (Ne.symm here)
      show Portfolio.venueSize (bought size) symbol = _
      rw [flat, unmoved, add_zero]
      rfl
  cash := cash

/-- The steps `equalFills` takes, checked where each is taken. -/
def boughtCheck (cadence : Cadence) : CadenceStep → Bool
  | .read snapshot =>
      decide (snapshot = bought 1 ∧ cadence.made = {firstBuy}) ||
        decide (snapshot = bought 2 ∧ cadence.made = {firstBuy, secondBuy})
  | _ => true

theorem boughtCheck_promised (cadence : Cadence) (step : CadenceStep)
    (checked : boughtCheck cadence step = true) :
    Promised liveAccount buyOne oneBought fundedLedger cadence step := by
  cases step with
  | fill trade =>
      refine ⟨⟨?_, nofun⟩, ?_⟩
      · show (0 : Decimal) < 1
        norm_num
      · rintro ⟨k, id, there, _⟩
        exact Finset.notMem_empty id there
  | read snapshot =>
      simp only [boughtCheck, Bool.or_eq_true, decide_eq_true_iff] at checked
      rcases checked with ⟨rfl, made⟩ | ⟨rfl, made⟩
      · unfold Promised
        rw [made]
        apply bought_truthful
        · decide +kernel
        · decide +kernel
      · unfold Promised
        rw [made]
        apply bought_truthful
        · decide +kernel
        · decide +kernel
  | book | start | finish => trivial

theorem funded_standing : Standing fundedLedger where
  filed := Filed.empty
  stamped := nofun
  opened := rfl

/-- A run's first pass has seen nothing. -/
def firstPass (cadence : Cadence) (_ : CadenceStep) : Bool :=
  decide (cadence.previous = ∅) || cadence.pass.isNone

theorem firstPass_apart (cadence : Cadence) (step : CadenceStep)
    (checked : firstPass cadence step = true) : Apart buyOne oneBought cadence step := by
  cases step with
  | finish nowNs modeVerified =>
      intro pass read under _
      have unseen : cadence.previous = ∅ := by
        simpa [firstPass, under] using checked
      refine ⟨fun symbol => Or.inr (Or.inr (Or.inl ?_)), fun _ => Or.inr (Or.inr (Or.inr ?_))⟩
      · rw [unseen]
        exact Finset.notMem_empty _
      · rw [unseen]
        exact Finset.notMem_empty _
  | fill | book | start | read => trivial

end Sample

end Tickwright.Engine
