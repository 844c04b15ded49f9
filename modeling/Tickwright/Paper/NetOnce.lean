/-
# Paper.NetOnce -- the venue's net counts each of its fills once

The venue counts a fill the moment it records it, the ledger when the store applies
it, and a net read adds the two.  `VenueLedger` is the venue beside what it reads of
the store, and the log of what was recorded since the last start.  Recordings,
applications, drains and everything else the venue does are moves of their own, so a
run is any interleaving of them; `place_run`, `tick_run` and `cancel_run` show the
venue's operations to be such runs.

* `Tracks` is the invariant: recorded fills are numbered past their order's count at
  the start and carry distinct ids, what waits is what of them is not applied, and
  the ledger moved by those applied since;
* `net_counts_once`: the net is the net at the last start and every fill recorded
  since, once, whose id the store did not hold at that start;
* a store holds such an id only where it booked an order's fills with a gap
  (`Gapless`), for paper counts on from how many are booked (`gapless_restarted`).
-/
import Tickwright.Paper.Moves
import Tickwright.Paper.Tally
import Tickwright.Theory.Machine
import Tickwright.Theory.Outbox

namespace Tickwright.Paper

open Tickwright.Domain Tickwright.Theory Tickwright.Engine

set_option autoImplicit false

/-! ## The venue beside the ledger it reads -/

/-- The id the store books a fill under. -/
def fillId (entry : FillReport × Side) : EventId := .fill entry.1.cloid entry.1.tradeId

/-- Whether a store that applied these ids has applied this fill. -/
def held (applied : Cloid → Finset EventId) (entry : FillReport × Side) : Bool :=
  decide (fillId entry ∈ applied entry.1.cloid)

/-- What a fill adds to the net of `symbol`. -/
def signedIn (symbol : Symbol) (entry : FillReport × Side) : Decimal :=
  if entry.1.symbol = symbol then entry.2.sign * entry.1.quantity else 0

/-- The venue, the net and the applied ids it reads of the store, what both were at
the last start with the fills each order had by then, and the fills recorded since. -/
structure VenueLedger where
  venue : PaperExchange := {}
  accountNet : Symbol → Decimal
  appliedFills : Cloid → Finset EventId
  startNet : Symbol → Decimal := accountNet
  startApplied : Cloid → Finset EventId := appliedFills
  startCounts : Cloid → ℕ := fun _ => 0
  recorded : List (FillReport × Side) := []

/-- What can happen between two reads of the net. -/
inductive LedgerMove
  /-- A new process starts over the order rows. -/
  | start (rows : List Order) (nowNs : Nanos)
  /-- `_fill_report`: the venue fills an order. -/
  | filled (order : PlaceOrder) (fill : Fill) (maker : Bool) (nowNs : Nanos)
  /-- `_on_fill_report`: the bus delivers a fill again. -/
  | redelivered (report : FillReport)
  /-- The store applies a recorded fill, to the saga and to the net in one step. -/
  | applied (report : FillReport) (side : Side)
  /-- The store books an event that is no fill. -/
  | noted (cloid : Cloid) (id : EventId)
  /-- `on_tick` begins: the tick is cached and the applied fills are dropped. -/
  | tick (tick : MarketTick)
  /-- A net is read, which drops the applied fills. -/
  | netRead
  /-- Whatever else the venue does: its book and its statuses change. -/
  | elsewhere (book : RestingBook) (statuses : Dict Cloid OrderStatusReport)

/-- Whether the id is one a fill is booked under. -/
def isFillId : EventId → Bool
  | .fill _ _ => true
  | .state _ _ | .piece _ _ _ | .reconcile _ _ | .leftover _ _ _ => false

namespace VenueLedger

def reads (ledger : VenueLedger) (nowNs : Nanos) : Reads where
  accountNet := ledger.accountNet
  appliedFills := ledger.appliedFills
  nowNs := nowNs

/-- The venue moved on; what it appended to its unapplied fills is what it recorded. -/
def during (ledger : VenueLedger) (venue : PaperExchange) : VenueLedger :=
  { ledger with
    venue := venue
    recorded := ledger.recorded ++ venue.unapplied.drop ledger.venue.unapplied.length }

/-- Add an id to the applied ids of one saga. -/
def book (ledger : VenueLedger) (cloid : Cloid) (id : EventId) : VenueLedger :=
  { ledger with
    appliedFills := fun other =>
      if other = cloid then insert id (ledger.appliedFills other) else ledger.appliedFills other }

/-- Move the net by one fill. -/
def accrue (ledger : VenueLedger) (entry : FillReport × Side) : VenueLedger :=
  { ledger with accountNet := fun symbol => ledger.accountNet symbol + signedIn symbol entry }

/-- Drop the applied fills. -/
def drained (ledger : VenueLedger) : VenueLedger :=
  { ledger with
    venue := { ledger.venue with unapplied := drain (ledger.reads 0) ledger.venue.unapplied } }

/-- How `on_tick` begins. -/
def ticked (ledger : VenueLedger) (tick : MarketTick) : VenueLedger :=
  { ledger.drained with
    venue := { ledger.drained.venue with
      latestTick := ledger.venue.latestTick.set tick.symbol tick } }

/-- A new process: the store stays, the venue is rebuilt. -/
def restarted (ledger : VenueLedger) (venue : PaperExchange) : VenueLedger where
  venue := venue
  accountNet := ledger.accountNet
  appliedFills := ledger.appliedFills
  startCounts := venue.fillCount

end VenueLedger

/-- **The venue beside its ledger.**  A fill is applied after it was recorded, and
once; the rows a start reads show the ids the store applied. -/
def ledgerMachine (config : PaperConfig) : Machine VenueLedger LedgerMove where
  step ledger move :=
    match move with
    | .start rows nowNs =>
        if ∀ row ∈ rows, row.appliedEventIds = ledger.appliedFills row.cloid then
          (PaperExchange.start (ledger.reads nowNs) {} rows).toOption.map ledger.restarted
        else none
    | .filled order fill maker nowNs =>
        some (ledger.during
          (Turn.reportFill config { venue := ledger.venue } (ledger.reads nowNs) order fill
            maker).venue)
    | .redelivered report => (ledger.venue.onFillReport report).toOption.map ledger.during
    | .applied report side =>
        if (report, side) ∈ ledger.recorded ∧ held ledger.appliedFills (report, side) = false then
          some ((ledger.book report.cloid (fillId (report, side))).accrue (report, side))
        else none
    | .noted cloid id => if isFillId id then none else some (ledger.book cloid id)
    | .tick tick => some (ledger.ticked tick)
    | .netRead => some ledger.drained
    | .elsewhere book statuses =>
        some { ledger with venue := { ledger.venue with book := book, statuses := statuses } }

variable {config : PaperConfig} {ledger after : VenueLedger}

theorem drain_eq (reads : Reads) (unapplied : List (FillReport × Side)) :
    drain reads unapplied = unapplied.filter fun entry => !held reads.appliedFills entry :=
  List.filter_congr fun _ _ => decide_not

/-! ## The invariant -/

/-- What holds of every venue beside its ledger. -/
structure Tracks (ledger : VenueLedger) : Prop where
  /-- Recorded fills are numbered past what their order had at the start, and within
  what it has now, -/
  numbered : ∀ entry ∈ ledger.recorded, ∃ number, fillNumber entry.1 = some number ∧
    ledger.startCounts entry.1.cloid < number ∧ number ≤ ledger.venue.fillCount entry.1.cloid
  /-- so no id was recorded twice, -/
  once : (ledger.recorded.map fillId).Nodup
  counts : ∀ cloid, ledger.startCounts cloid ≤ ledger.venue.fillCount cloid
  /-- and a fill that was applied since was recorded since. -/
  grows : ∀ cloid, ledger.startApplied cloid ⊆ ledger.appliedFills cloid
  sources : ∀ cloid trade, EventId.fill cloid trade ∈ ledger.appliedFills cloid →
    EventId.fill cloid trade ∈ ledger.startApplied cloid ∨
      EventId.fill cloid trade ∈ ledger.recorded.map fillId
  /-- What waits is what was recorded and is not applied, -/
  waits : ledger.venue.unapplied.filter (fun entry => !held ledger.appliedFills entry) =
    ledger.recorded.filter fun entry => !held ledger.appliedFills entry
  /-- and the ledger moved by what was recorded and applied since. -/
  booked : ∀ symbol, ledger.accountNet symbol = ledger.startNet symbol +
    ((ledger.recorded.filter fun entry =>
      held ledger.appliedFills entry && !held ledger.startApplied entry).map (signedIn symbol)).sum

/-- The venue recorded one fill: it waits, and its number is its order's count. -/
structure Recorded (venue after : PaperExchange) (report : FillReport) (number : ℕ) (side : Side) :
    Prop where
  unapplied : after.unapplied = venue.unapplied ++ [(report, side)]
  counts : ∀ cloid, after.fillCount cloid =
    if report.cloid = cloid then number else venue.fillCount cloid

theorem recorded_count (venue : PaperExchange) (book : RestingBook) (report : FillReport)
    (number : ℕ) (side : Side) :
    Recorded venue (({ venue with book := book } : PaperExchange).count report number side) report
      number side := by
  refine ⟨rfl, fun cloid => ?_⟩
  simp only [PaperExchange.fillCount, PaperExchange.count, Dict.get_set]
  split <;> rfl

theorem fillNumber_eq {first second : FillReport} (cloid : first.cloid = second.cloid)
    (trade : first.tradeId = second.tradeId) : fillNumber first = fillNumber second := by
  simp only [fillNumber, cloid, trade]

/-- **A recording keeps track**: its number is new, so its id is. -/
theorem Tracks.record (tracks : Tracks ledger) {venue : PaperExchange} {report : FillReport}
    {number : ℕ} {side : Side} (named : fillNumber report = some number)
    (past : ledger.venue.fillCount report.cloid < number)
    (did : Recorded ledger.venue venue report number side) : Tracks (ledger.during venue) := by
  have log : (ledger.during venue).recorded = ledger.recorded ++ [(report, side)] := by
    simp [VenueLedger.during, did.unapplied]
  have up : ∀ cloid, ledger.venue.fillCount cloid ≤ venue.fillCount cloid := by
    intro cloid
    rw [did.counts]
    split
    · rename_i same
      exact same ▸ past.le
    · exact le_refl _
  have new : fillId (report, side) ∉ ledger.recorded.map fillId := by
    intro member
    obtain ⟨entry, there, same⟩ := List.mem_map.mp member
    obtain ⟨cloid, trade⟩ := EventId.fill.inj same
    obtain ⟨old, is, -, within⟩ := tracks.numbered entry there
    rw [fillNumber_eq cloid trade, named] at is
    rw [← Option.some.inj is, cloid] at within
    exact absurd past (not_lt.mpr within)
  refine ⟨fun entry member => ?_, ?_, fun cloid => (tracks.counts cloid).trans (up cloid),
    tracks.grows, fun cloid trade applied => ?_, ?_, fun symbol => ?_⟩
  · rw [log] at member
    rcases List.mem_append.mp member with old | is
    · obtain ⟨is, named', since, within⟩ := tracks.numbered entry old
      exact ⟨is, named', since, within.trans (up _)⟩
    · obtain rfl := List.mem_singleton.mp is
      refine ⟨number, named, (tracks.counts report.cloid).trans_lt past, ?_⟩
      show number ≤ venue.fillCount report.cloid
      rw [did.counts, if_pos rfl]
  · rw [log, List.map_append, List.map_singleton]
    exact List.concat_eq_append ▸ tracks.once.concat new
  · rw [log, List.map_append, List.mem_append]
    rcases tracks.sources cloid trade applied with before | since
    · exact .inl before
    · exact .inr (.inl since)
  · rw [log]
    show venue.unapplied.filter (fun entry => !held ledger.appliedFills entry) = _
    rw [did.unapplied, List.filter_append, List.filter_append, tracks.waits]
    rfl
  · -- An id the store holds of this fill it held at the start.
    have nothing : [(report, side)].filter (fun entry =>
        held ledger.appliedFills entry && !held ledger.startApplied entry) = [] := by
      refine List.filter_eq_nil_iff.mpr fun entry member => ?_
      obtain rfl := List.mem_singleton.mp member
      by_cases applied : fillId (report, side) ∈ ledger.appliedFills report.cloid
      · rcases tracks.sources _ _ applied with before | since
        · simp [held, fillId, before]
        · exact absurd since new
      · simp [held, applied]
    rw [log]
    show ledger.accountNet symbol = ledger.startNet symbol + _
    rw [List.filter_append, List.map_append, List.sum_append, tracks.booked symbol]
    simp [VenueLedger.during, nothing]

theorem mem_book {ledger : VenueLedger} {cloid other : Cloid} {id booked : EventId} :
    booked ∈ (ledger.book cloid id).appliedFills other ↔
      (other = cloid ∧ booked = id) ∨ booked ∈ ledger.appliedFills other := by
  by_cases same : other = cloid
  · simp [VenueLedger.book, same]
  · simp [VenueLedger.book, same]

/-- **An application keeps track**: what it adds to the net waits no more. -/
theorem Tracks.apply (tracks : Tracks ledger) {entry : FillReport × Side}
    (there : entry ∈ ledger.recorded) (waiting : held ledger.appliedFills entry = false) :
    Tracks ((ledger.book entry.1.cloid (fillId entry)).accrue entry) := by
  have booked : ∀ other, held (ledger.book entry.1.cloid (fillId entry)).appliedFills other =
      (decide (fillId other = fillId entry) || held ledger.appliedFills other) := by
    intro other
    by_cases is : fillId other = fillId entry
    · simp [held, mem_book, is, (EventId.fill.inj is).1]
    · simp [held, mem_book, is]
  have later : ∀ other, held ledger.appliedFills other = true →
      held (ledger.book entry.1.cloid (fillId entry)).appliedFills other = true := by
    intro other was
    rw [booked, was, Bool.or_true]
  have unheld : ∀ other, fillId other = fillId entry → held ledger.startApplied other = false := by
    intro other is
    have cloid := (EventId.fill.inj is).1
    have absent : fillId entry ∉ ledger.appliedFills entry.1.cloid := by
      simpa [held] using waiting
    simp only [held, is, cloid, decide_eq_false_iff_not]
    exact fun before => absent (tracks.grows _ before)
  refine ⟨tracks.numbered, tracks.once, tracks.counts, fun cloid id before => ?_,
    fun cloid trade applied => ?_, ?_, fun symbol => ?_⟩
  · exact mem_book.mpr (.inr (tracks.grows cloid before))
  · rcases mem_book.mp applied with ⟨-, is⟩ | was
    · exact .inr (List.mem_map.mpr ⟨entry, there, is.symm⟩)
    · exact tracks.sources cloid trade was
  · have dropped := congrArg (List.filter fun other =>
      !held (ledger.book entry.1.cloid (fillId entry)).appliedFills other) tracks.waits
    rw [filter_later later, filter_later later] at dropped
    exact dropped
  · have since : ledger.recorded.filter (fun other =>
        held (ledger.book entry.1.cloid (fillId entry)).appliedFills other &&
          !held ledger.startApplied other) =
        ledger.recorded.filter fun other => decide (fillId other = fillId entry) ||
          (held ledger.appliedFills other && !held ledger.startApplied other) := by
      refine List.filter_congr fun other _ => ?_
      rw [booked]
      by_cases is : fillId other = fillId entry
      · simp [is, unheld other is]
      · simp [is]
    have added := sum_applied
      (fun other => held ledger.appliedFills other && !held ledger.startApplied other)
      (signedIn symbol)
      tracks.once there (by simp [waiting])
    show ledger.accountNet symbol + signedIn symbol entry = ledger.startNet symbol +
      ((ledger.recorded.filter fun other =>
        held (ledger.book entry.1.cloid (fillId entry)).appliedFills other &&
          !held ledger.startApplied other).map (signedIn symbol)).sum
    rw [since, added, tracks.booked symbol, add_right_comm, add_assoc]

/-- An event that is no fill moves no fill. -/
theorem Tracks.note (tracks : Tracks ledger) (cloid : Cloid) {id : EventId}
    (other : isFillId id = false) : Tracks (ledger.book cloid id) := by
  have none : ∀ c trade, EventId.fill c trade ≠ id := by
    rintro c trade rfl
    cases other
  have same : ∀ entry, held (ledger.book cloid id).appliedFills entry =
      held ledger.appliedFills entry := by
    intro entry
    have ne : fillId entry ≠ id := none _ _
    simp [held, mem_book, ne]
  refine ⟨tracks.numbered, tracks.once, tracks.counts, fun c id before => ?_,
    fun c trade applied => ?_, ?_, fun symbol => ?_⟩
  · exact mem_book.mpr (.inr (tracks.grows c before))
  · rcases mem_book.mp applied with ⟨-, is⟩ | was
    · exact absurd is (none c trade)
    · exact tracks.sources c trade was
  · simp only [same]
    exact tracks.waits
  · simp only [same]
    exact tracks.booked symbol

/-- Dropping what is applied leaves what waits. -/
theorem Tracks.drop (tracks : Tracks ledger) : Tracks ledger.drained := by
  refine ⟨tracks.numbered, tracks.once, tracks.counts, tracks.grows, tracks.sources, ?_,
    tracks.booked⟩
  have same : ∀ entry, held ledger.appliedFills entry = true →
      held ledger.appliedFills entry = true := fun _ is => is
  show (drain (ledger.reads 0) ledger.venue.unapplied).filter
    (fun entry => !held ledger.appliedFills entry) = _
  rw [drain_eq]
  exact (filter_later same _).trans tracks.waits

/-- The book, the statuses and the ticks have no part in it. -/
theorem Tracks.elsewhere (tracks : Tracks ledger) {venue : PaperExchange}
    (counts : venue.fillCounts = ledger.venue.fillCounts)
    (unapplied : venue.unapplied = ledger.venue.unapplied) :
    Tracks { ledger with venue := venue } := by
  have counted : ∀ cloid, venue.fillCount cloid = ledger.venue.fillCount cloid := fun cloid => by
    rw [PaperExchange.fillCount, counts, PaperExchange.fillCount]
  refine ⟨fun entry member => ?_, tracks.once, fun cloid => ?_, tracks.grows, tracks.sources, ?_,
    tracks.booked⟩
  · simp only [counted]
    exact tracks.numbered entry member
  · simp only [counted]
    exact tracks.counts cloid
  · simp only [unapplied]
    exact tracks.waits

/-! ## Every move keeps track -/

theorem tracks_opened (accountNet : Symbol → Decimal) (appliedFills : Cloid → Finset EventId) :
    Tracks { accountNet := accountNet, appliedFills := appliedFills } where
  numbered _ member := by cases member
  once := List.nodup_nil
  counts _ := le_refl _
  grows _ := Finset.Subset.refl _
  sources _ _ applied := .inl applied
  waits := rfl
  booked symbol := by simp

theorem rebuild_unapplied {reads : Reads} {venue after : PaperExchange} {saga : Order}
    (rebuilds : PaperExchange.rebuild reads venue saga = .ok after) :
    after.unapplied = venue.unapplied := by
  simp only [PaperExchange.rebuild] at rebuilds
  split at rebuilds
  · cases rebuilds
  · split at rebuilds
    · cases rebuilds
    · cases rebuilds
      rfl

theorem start_unapplied {reads : Reads} {venue after : PaperExchange} {rows : List Order}
    (starts : PaperExchange.start reads venue rows = .ok after) :
    after.unapplied = venue.unapplied := by
  simp only [PaperExchange.start] at starts
  generalize PaperExchange.restingOrders rows = resting at starts
  induction resting generalizing venue with
  | nil =>
      cases starts
      rfl
  | cons saga rest ih =>
      rw [List.foldlM_cons] at starts
      cases first : PaperExchange.rebuild reads venue saga with
      | error violation => rw [first] at starts; cases starts
      | ok between =>
          rw [first] at starts
          exact (ih starts).trans (rebuild_unapplied first)

/-- **A start begins a new account**: nothing waits, and nothing was recorded since. -/
theorem tracks_restarted {venue : PaperExchange} (nothing : venue.unapplied = []) :
    Tracks (ledger.restarted venue) where
  numbered _ member := by cases member
  once := List.nodup_nil
  counts _ := le_refl _
  grows _ := Finset.Subset.refl _
  sources _ _ applied := .inl applied
  waits := by
    show venue.unapplied.filter _ = _
    rw [nothing]
    rfl
  booked symbol := by simp [VenueLedger.restarted]

/-- **Every move keeps track.** -/
theorem tracks_step {move : LedgerMove} (tracks : Tracks ledger)
    (moved : (ledgerMachine config).step ledger move = some after) : Tracks after := by
  cases move with
  | start rows nowNs =>
      simp only [ledgerMachine] at moved
      split at moved
      · obtain ⟨venue, starts, rfl⟩ := Option.map_eq_some_iff.mp moved
        exact tracks_restarted (start_unapplied (ok_of_toOption starts))
      · cases moved
  | filled order fill maker nowNs =>
      cases moved
      exact tracks.record (fillNumber_tradeId rfl) (Nat.lt_succ_self _)
        (recorded_count ledger.venue ledger.venue.book _ _ order.side)
  | redelivered report =>
      obtain ⟨venue, hears, rfl⟩ := Option.map_eq_some_iff.mp moved
      rcases onFillReport_ok (ok_of_toOption hears) with
        rfl | ⟨number, order, book, named, past, rfl⟩
      · have log : ledger.during ledger.venue = ledger := by simp [VenueLedger.during]
        rw [log]
        exact tracks
      · exact tracks.record named past (recorded_count ledger.venue book _ _ order.side)
  | applied report side =>
      simp only [ledgerMachine] at moved
      split at moved
      · rename_i fits
        cases moved
        exact tracks.apply fits.1 fits.2
      · cases moved
  | noted cloid id =>
      simp only [ledgerMachine] at moved
      split at moved
      · cases moved
      · rename_i other
        cases moved
        exact tracks.note cloid (by simpa using other)
  | tick tick =>
      cases moved
      exact tracks.drop.elsewhere rfl rfl
  | netRead =>
      cases moved
      exact tracks.drop
  | elsewhere book statuses =>
      cases moved
      exact tracks.elsewhere rfl rfl

/-! ## The net -/

/-- **The net the venue reads**: the net at the last start, and what was recorded
since that the store did not hold by then. -/
theorem Tracks.net (tracks : Tracks ledger) (nowNs : Nanos) (symbol : Symbol) :
    ledger.venue.net (ledger.reads nowNs) symbol = ledger.startNet symbol +
      ((ledger.recorded.filter fun entry => !held ledger.startApplied entry).map
        (signedIn symbol)).sum := by
  have grows : ∀ entry, held ledger.startApplied entry = true →
      held ledger.appliedFills entry = true := by
    intro entry before
    simp only [held, decide_eq_true_eq] at before ⊢
    exact tracks.grows _ before
  show ledger.accountNet symbol +
    ((drain (ledger.reads nowNs) ledger.venue.unapplied).map (signedIn symbol)).sum = _
  rw [drain_eq, tracks.booked symbol, ← sum_since (signedIn symbol) grows ledger.recorded,
    ← tracks.waits, add_assoc]
  rfl

/-- No fill of `cloid` the store held at the start is numbered past what the order had
booked by then. -/
def GaplessAt (ledger : VenueLedger) (cloid : Cloid) : Prop :=
  ∀ fill : FillReport, fill.cloid = cloid →
    EventId.fill fill.cloid fill.tradeId ∈ ledger.startApplied fill.cloid →
    ∀ number, fillNumber fill = some number → number ≤ ledger.startCounts fill.cloid

/-- There was no gap in what the store held of the orders filled since. -/
def Gapless (ledger : VenueLedger) : Prop :=
  ∀ entry ∈ ledger.recorded, GaplessAt ledger entry.1.cloid

/-- Without a gap no recorded fill was held before it was recorded. -/
theorem Tracks.unheld (tracks : Tracks ledger) (gapless : Gapless ledger) :
    (ledger.recorded.filter fun entry => !held ledger.startApplied entry) = ledger.recorded := by
  refine List.filter_eq_self.mpr fun entry member => ?_
  obtain ⟨number, named, past, -⟩ := tracks.numbered entry member
  by_contra before
  have there : fillId entry ∈ ledger.startApplied entry.1.cloid := by
    simpa only [held, Bool.not_eq_true', decide_eq_false_iff_not, not_not] using before
  have within := gapless entry member entry.1 rfl there number named
  omega

theorem rebuild_fillCount {reads : Reads} {venue after : PaperExchange} {saga : Order}
    (rebuilds : PaperExchange.rebuild reads venue saga = .ok after) (cloid : Cloid) :
    after.fillCount cloid =
      if saga.cloid = cloid then saga.fillCount else venue.fillCount cloid := by
  simp only [PaperExchange.rebuild] at rebuilds
  split at rebuilds
  · cases rebuilds
  · split at rebuilds
    · cases rebuilds
    · cases rebuilds
      simp only [PaperExchange.fillCount, PaperExchange.remember, Dict.get_set]
      split <;> rfl

/-- **A start counts on from what a row has booked.** -/
theorem start_fillCount {reads : Reads} {venue after : PaperExchange} {resting : List Order}
    (distinct : (resting.map Order.cloid).Nodup)
    (starts : resting.foldlM (PaperExchange.rebuild reads) venue = .ok after) (cloid : Cloid) :
    (∀ saga ∈ resting, saga.cloid = cloid → after.fillCount cloid = saga.fillCount) ∧
      (cloid ∉ resting.map Order.cloid → after.fillCount cloid = venue.fillCount cloid) := by
  induction resting generalizing venue with
  | nil =>
      cases starts
      simp
  | cons first rest ih =>
      obtain ⟨absent, distinctRest⟩ := List.nodup_cons.mp distinct
      rw [List.foldlM_cons] at starts
      cases rebuilds : PaperExchange.rebuild reads venue first with
      | error violation => rw [rebuilds] at starts; cases starts
      | ok between =>
          rw [rebuilds] at starts
          obtain ⟨rows, others⟩ := ih distinctRest starts
          have here := rebuild_fillCount rebuilds cloid
          refine ⟨fun saga member own => ?_, fun gone => ?_⟩
          · rcases List.mem_cons.mp member with rfl | tail
            · rw [others (own ▸ absent), here, if_pos own]
            · exact rows saga tail own
          · simp only [List.map_cons, List.mem_cons, not_or] at gone
            rw [others gone.2, here, if_neg (Ne.symm gone.1)]

/-- **A start over rows whose booked fills are numbered without a gap leaves none** on
the orders it rebuilds. -/
theorem gapless_restarted {rows : List Order} {venue : PaperExchange} {nowNs : Nanos}
    (distinct : (rows.map Order.cloid).Nodup)
    (shown : ∀ row ∈ rows, row.appliedEventIds = ledger.appliedFills row.cloid)
    (starts : PaperExchange.start (ledger.reads nowNs) {} rows = .ok venue) {saga : Order}
    (member : saga ∈ PaperExchange.restingOrders rows) (counted : Counted saga) :
    GaplessAt (ledger.restarted venue) saga.cloid := by
  have rebuilt : venue.fillCount saga.cloid = saga.fillCount := by
    have sub : (PaperExchange.restingOrders rows).Sublist rows := List.filter_sublist
    exact (start_fillCount (distinct.sublist (sub.map _)) starts saga.cloid).1 saga member rfl
  intro fill own booked number named
  replace booked : EventId.fill fill.cloid fill.tradeId ∈ ledger.appliedFills fill.cloid := booked
  rw [own, ← shown saga (List.mem_filter.mp member).1] at booked
  obtain ⟨is, -, within, trade⟩ := (counted.numbered _).mp booked
  have same := fillNumber_tradeId (own ▸ trade : fill.tradeId = tradeId fill.cloid is)
  show number ≤ venue.fillCount fill.cloid
  rw [own, rebuilt, ← Option.some.inj (same.symm.trans named)]
  exact within

/-- One thing an operation does to the venue, as far as the net goes. -/
inductive VenueStep (config : PaperConfig) (reads : Reads) : PaperExchange → PaperExchange → Prop
  | filled (venue : PaperExchange) (order : PlaceOrder) (fill : Fill) (maker : Bool) :
      VenueStep config reads venue
        (Turn.reportFill config { venue := venue } reads order fill maker).venue
  | elsewhere (venue : PaperExchange) (book : RestingBook)
      (statuses : Dict Cloid OrderStatusReport) :
      VenueStep config reads venue { venue with book := book, statuses := statuses }

abbrev VenuePath (config : PaperConfig) (reads : Reads) : PaperExchange → PaperExchange → Prop :=
  Relation.ReflTransGen (VenueStep config reads)

variable {reads : Reads} {model : FillModel}

theorem announce_path (turn : Turn) (order : PlaceOrder) (status : OrderState)
    (reason : Option String) :
    VenuePath config reads turn.venue (turn.announce reads order status reason).venue :=
  .single (.elsewhere turn.venue turn.venue.book _)

theorem withBook_path (turn : Turn) (book : RestingBook) :
    VenuePath config reads turn.venue (turn.withBook book).venue :=
  .single (.elsewhere turn.venue book turn.venue.statuses)

theorem reportFill_path (turn : Turn) (order : PlaceOrder) (fill : Fill) (maker : Bool) :
    VenuePath config reads turn.venue (turn.reportFill config reads order fill maker).venue :=
  .single (.filled turn.venue order fill maker)

theorem takeFill_path (turn : Turn) (order : LimitOrder) (result : BookFill) (price : Decimal)
    (maker : Bool) :
    VenuePath config reads turn.venue
      (turn.takeFill config reads order result price maker).venue := by
  simp only [Turn.takeFill]
  split
  · exact (reportFill_path ..).trans (announce_path ..)
  · exact reportFill_path ..

theorem Move.venuePath {turn after : Turn} (move : Move config reads turn after) :
    VenuePath config reads turn.venue after.venue := by
  cases move with
  | shrink cloid size => exact withBook_path ..
  | lifted resting order reason there => exact (withBook_path ..).trans (announce_path ..)
  | filled resting asked price maker result book there applied =>
      exact (withBook_path ..).trans (takeFill_path ..)

theorem Moves.venuePath {turn after : Turn} (moves : Moves config reads turn after) :
    VenuePath config reads turn.venue after.venue :=
  moves.induct (I := fun t => VenuePath config reads turn.venue t.venue) .refl
    fun _ _ path move => path.trans move.venuePath

theorem place_venuePath {turn after : Turn} {order : PlaceOrder}
    (fresh : turn.venue.book.get order.cloid = none)
    (placed : turn.place config model reads order = .ok after) :
    VenuePath config reads turn.venue after.venue := by
  obtain ⟨start, last, begins, moves, ends⟩ := (Turn.place_path fresh placed).path
  have begun : VenuePath config reads turn.venue start.venue := by
    cases begins with
    | neither => exact .refl
    | rests limit is => exact withBook_path ..
    | market tick kind =>
        simp only [Turn.fillMarket]
        split
        · exact (reportFill_path ..).trans (announce_path ..)
        · exact reportFill_path ..
  have ended : VenuePath config reads last.venue after.venue := by
    cases ends with
    | silent => exact .refl
    | live => exact announce_path ..
    | refused status reason terminal gone => exact announce_path ..
    | dropped => exact (withBook_path ..).trans (announce_path ..)
  exact (begun.trans moves.venuePath).trans ended

/-- Recording twice is recording both, in order. -/
theorem during_during {venue last : PaperExchange} {first second : List (FillReport × Side)}
    (appended : venue.unapplied = ledger.venue.unapplied ++ first)
    (more : last.unapplied = venue.unapplied ++ second) :
    (ledger.during venue).during last = ledger.during last := by
  simp [VenueLedger.during, more, appended]

theorem step_move {nowNs : Nanos} {venue : PaperExchange}
    (step : VenueStep config (ledger.reads nowNs) ledger.venue venue) :
    (∃ added, venue.unapplied = ledger.venue.unapplied ++ added) ∧
      ∃ move, (ledgerMachine config).step ledger move = some (ledger.during venue) := by
  cases step with
  | filled order fill maker => exact ⟨⟨_, rfl⟩, .filled order fill maker nowNs, rfl⟩
  | elsewhere book statuses =>
      exact ⟨⟨[], (List.append_nil _).symm⟩, .elsewhere book statuses,
        by simp [ledgerMachine, VenueLedger.during]⟩

/-- **A path of the venue is a run**, which records what the path appended. -/
theorem path_run {nowNs : Nanos} {venue : PaperExchange}
    (path : VenuePath config (ledger.reads nowNs) ledger.venue venue) :
    (∃ added, venue.unapplied = ledger.venue.unapplied ++ added) ∧
      ∃ moves, (ledgerMachine config).run ledger moves = some (ledger.during venue) := by
  induction path with
  | refl => exact ⟨⟨[], by simp⟩, [], by simp [VenueLedger.during]⟩
  | @tail venue last _ step ih =>
      obtain ⟨⟨added, appended⟩, moves, ran⟩ := ih
      have here : VenueStep config ((ledger.during venue).reads nowNs) (ledger.during venue).venue
          last := step
      obtain ⟨⟨more, then_⟩, move, moved⟩ := step_move here
      replace then_ : last.unapplied = venue.unapplied ++ more := then_
      refine ⟨⟨added ++ more, by rw [then_, appended, List.append_assoc]⟩, moves ++ [move], ?_⟩
      rw [during_during appended then_] at moved
      exact (Machine.run_append _ _).mpr
        ⟨_, ran, Machine.run_cons_eq_some.mpr ⟨_, moved, rfl⟩⟩

/-- A placement of an order that does not rest yet is a run. -/
theorem place_run {order : PlaceOrder} {nowNs : Nanos} {turn : Turn}
    (fresh : ledger.venue.book.get order.cloid = none)
    (placed : Turn.place config model { venue := ledger.venue } (ledger.reads nowNs) order =
      .ok turn) :
    ∃ moves, (ledgerMachine config).run ledger moves = some (ledger.during turn.venue) :=
  (path_run (place_venuePath fresh placed)).2

theorem cancel_run (refs : List CancelRef) (nowNs : Nanos) :
    ∃ moves, (ledgerMachine config).run ledger moves = some (ledger.during
      (Turn.cancel { venue := ledger.venue } (ledger.reads nowNs) refs).venue) :=
  (path_run (Turn.cancel_moves { venue := ledger.venue } refs).venuePath).2

/-- A tick is a run: the applied fills are dropped first, and the book is matched. -/
theorem tick_run {tick : MarketTick} {nowNs : Nanos} {turn : Turn}
    (matched : ledger.venue.onTick config model (ledger.reads nowNs) tick = .ok turn) :
    ∃ moves, (ledgerMachine config).run ledger (.tick tick :: moves) =
      some ((ledger.ticked tick).during turn.venue) := by
  have path : VenuePath config ((ledger.ticked tick).reads nowNs) (ledger.ticked tick).venue
      turn.venue := (Turn.matchBook_moves matched).venuePath
  obtain ⟨moves, ran⟩ := (path_run path).2
  exact ⟨moves, Machine.run_cons_eq_some.mpr ⟨_, rfl, ran⟩⟩

/-! ## Sample runs -/

namespace Sample

/-- A resting BUY of ten. -/
def tenBid : PlaceOrder where
  cloid := "bid"
  symbol := "ETH"
  side := .buy
  quantity := 10
  timeInForce := .gtc
  limitPrice := some 90

/-- Its fill of this number. -/
def bidFill (number : ℕ) (quantity : Decimal) : FillReport where
  cloid := "bid"
  symbol := "ETH"
  tradeId := tradeId "bid" number
  quantity := quantity
  price := 90

/-- Its row, with these of its fills booked. -/
def bidRow (cumQty : Decimal) (booked : Finset EventId) : Order where
  cloid := "bid"
  strategyId := ⟨"bidder", by decide⟩
  signalId := ⟨⟨"bidder", by decide⟩, "ETH", 17⟩
  symbol := "ETH"
  side := .buy
  quantity := 10
  orderType := .limit
  state := .partiallyFilled
  cumQty := cumQty
  price := some 90
  timeInForce := some .gtc
  appliedEventIds := booked

/-- The store of an account that bought this much, all of it on `tenBid`. -/
def bidLedger (bought : Decimal) (booked : Finset EventId) : VenueLedger where
  accountNet symbol := if symbol = "ETH" then bought else 0
  appliedFills cloid := if cloid = "bid" then booked else ∅

/-- A start over a row with one fill booked, its second fill delivered again, a third
one made, and the two applied the other way round. -/
def outOfOrder : List LedgerMove :=
  [.start [bidRow 1 {.fill "bid" "bid-1"}] 5,
    .redelivered (bidFill 2 2),
    .filled tenBid ⟨4, 90⟩ true 0,
    .netRead,
    .applied (bidFill 3 4) .buy,
    .tick { symbol := "ETH", price := 95 },
    .applied (bidFill 2 2) .buy]

/-- Two fills of which the store applies the second alone, a start over that row, and
one fill more. -/
def booksSecondFirst : List LedgerMove :=
  [.filled tenBid ⟨1, 90⟩ true 0,
    .filled tenBid ⟨2, 90⟩ true 0,
    .applied (bidFill 2 2) .buy,
    .start [bidRow 2 {.fill "bid" "bid-2"}] 5,
    .filled tenBid ⟨4, 90⟩ true 6]

end Sample

end Tickwright.Paper
