/-
# Paper.ReduceOnlyRun -- reduce-only orders over any run of the desk

`Level` joins what the desk keeps of its orders (`Orderly`), of the venue's net
(`Tracks`) and of the book against that net (`Fitted`), and says that what the bus
holds of fills is what waits at the venue.  So a fill that is dispatched moves from
one summand of the net to the other, and the net stays.

A restart rebuilds each resting order at no more than the net, and does not ask on
which side the net lies: `StillReduces` is the question it leaves out.

* `level_step`: one step keeps the desk level, and its fills shrink the net;
* `reduceOnly_shrinks`: so do the fills of every run whose restarts rebuild no
  reduce-only order with nothing to reduce;
* `Sample.fills_nothing` is a run with such a restart: the fill that closed the net was
  dispatched, the cancel it owed was not, and the order comes back to fill at size zero.
-/
import Tickwright.Paper.Ghosts
import Tickwright.Paper.NetOnce
import Tickwright.Paper.ReduceOnly

namespace Tickwright.Paper

open Tickwright.Domain Tickwright.Theory Tickwright.Engine

set_option autoImplicit false

variable {config : DeskConfig} {reads later : Reads} {sagas others : Dict Cloid Order}

/-! ## What a step published, and what is asked of it -/

/-- The fills a step published. -/
def Desk.filled (before after : Desk) : List FillReport :=
  fillsIn (after.pending.drop before.pending.length)

/-- Every reduce-only order a restart would put back has a net to reduce. -/
def StillReduces (desk : Desk) (nowNs : Nanos) : Prop :=
  ∀ saga ∈ PaperExchange.restingOrders desk.sagas.values, ∀ request,
    placeOrderOf saga = .ok request → request.reduceOnly = true →
      ({} : PaperExchange).reduces (desk.reads nowNs) request = true

/-- The steps of a venue that trades and restarts: its fill model fills, and a restart
puts back no reduce-only order with nothing to reduce. -/
def Fitting (desk : Desk) : DeskLabel → Prop
  | .place _ _ _ _ model _ | .tick _ model _ => model.Fills
  | .cancel _ _ | .dispatch _ => True
  | .restart nowNs => StillReduces desk nowNs
  | .redeliver _ _ | .read _ | .conclude _ _ _ _ => False

/-! ## What carries over when the store moves -/

/-- Later sagas keep the terms the net takes of them. -/
def Carries (sagas others : Dict Cloid Order) : Prop :=
  ∀ cloid saga, sagas.get cloid = some saga → ∃ other, others.get cloid = some other ∧
    other.symbol = saga.symbol ∧ other.side = saga.side ∧ other.reduceOnly = saga.reduceOnly

theorem Owns.carried {order : PlaceOrder} {saga : Order} (owns : Owns sagas order saga)
    (carries : Carries sagas others) : ∃ other, Owns others order other := by
  obtain ⟨other, held, symbol, side, reduceOnly⟩ := carries _ _ owns.held
  exact ⟨other, held, symbol.trans owns.symbol, side.trans owns.side,
    reduceOnly.trans owns.reduceOnly⟩

theorem Kept.carried {entry : FillReport × Side} (kept : Kept sagas reads entry)
    (carries : Carries sagas others)
    (waits : EventId.fill entry.1.cloid entry.1.tradeId ∉ later.appliedFills entry.1.cloid) :
    Kept others later entry := by
  obtain ⟨order, held, symbol, side⟩ := kept.saga
  obtain ⟨other, there, symbols, sides, _⟩ := carries _ _ held
  exact ⟨⟨other, there, symbol.trans symbols.symm, side.trans sides.symm⟩, waits⟩

/-- The book fits as it did where the net stays. -/
theorem Fitted.carried {venue : PaperExchange} (fitted : Fitted sagas reads settled venue)
    (carries : Carries sagas others) (net : venue.net later = venue.net reads)
    (unbooked : ∀ cloid, Unbooked reads venue cloid → Unbooked later venue cloid) :
    Fitted others later settled venue := by
  intro cloid resting there
  have fits := fitted cloid resting there
  obtain ⟨saga, owns⟩ := fits.owns
  refine ⟨owns.carried carries, unbooked _ fits.unbooked, fits.started, fits.positive,
    fun reduceOnly _ => ?_⟩
  rw [reduces_congr (congrFun net _), congrFun net]
  exact fits.within reduceOnly id

theorem Carries.refl (sagas : Dict Cloid Order) : Carries sagas sagas := fun _ saga held =>
  ⟨saga, held, rfl, rfl, rfl⟩

/-- What an operation reads of the store does not hang on when it reads it. -/
theorem Fitted.anytime {desk : Desk} {nowNs otherNs : Nanos} {venue : PaperExchange}
    (fitted : Fitted desk.sagas (desk.reads nowNs) settled venue) :
    Fitted desk.sagas (desk.reads otherNs) settled venue :=
  fitted.carried (.refl _) rfl fun _ was => was

/-- A new saga is carried over the old ones. -/
theorem carries_set {cloid : Cloid} {saga : Order} (new : sagas.get cloid = none) :
    Carries sagas (sagas.set cloid saga) := by
  intro other held there
  have ne : cloid ≠ other := by
    rintro rfl
    rw [new] at there
    cases there
  exact ⟨held, (Dict.get_set_ne _ _ ne).trans there, rfl, rfl, rfl⟩

/-- An absorbed report leaves the terms. -/
theorem carries_absorbed {cloid : Cloid} {order next : Order} {report : ExecutionReport}
    {nowNs : Nanos} (held : sagas.get cloid = some order)
    (absorbed : absorb order report nowNs = .ok next) : Carries sagas (sagas.set cloid next) := by
  obtain ⟨⟨_, symbol, side, _, reduceOnly, _⟩, _⟩ := absorb_terms absorbed
  intro other saga there
  by_cases same : cloid = other
  · subst same
    cases held.symm.trans there
    exact ⟨next, Dict.get_set_self .., symbol, side, reduceOnly⟩
  · exact ⟨saga, (Dict.get_set_ne _ _ same).trans there, rfl, rfl, rfl⟩

/-- The same net, and the same fills applied. -/
structure SameFills (reads later : Reads) : Prop where
  net : later.accountNet = reads.accountNet
  fills : ∀ cloid trade, EventId.fill cloid trade ∈ later.appliedFills cloid ↔
    EventId.fill cloid trade ∈ reads.appliedFills cloid

theorem SameFills.drain (same : SameFills reads later) (unapplied : List (FillReport × Side)) :
    Paper.drain later unapplied = Paper.drain reads unapplied :=
  List.filter_congr fun entry _ => by rw [decide_eq_decide, same.fills]

theorem SameFills.venueNet (same : SameFills reads later) (venue : PaperExchange) :
    venue.net later = venue.net reads := by
  funext symbol
  rw [PaperExchange.net, PaperExchange.net, signedSize, signedSize, same.drain, same.net]

theorem SameFills.unbooked (same : SameFills reads later) {venue : PaperExchange} {cloid : Cloid}
    (unbooked : Unbooked reads venue cloid) : Unbooked later venue cloid := fun number past =>
  (same.fills _ _).not.mpr (unbooked number past)

/-! ## The invariant -/

/-- A ledger of the desk: its venue, and what that reads of the store. -/
structure LedgerOf (desk : Desk) (ledger : VenueLedger) : Prop where
  venue : ledger.venue = desk.venue
  accountNet : ledger.accountNet = desk.accountNet
  appliedFills : ledger.appliedFills = (desk.reads 0).appliedFills
  tracks : Tracks ledger

/-- What holds between two steps. -/
structure Level (desk : Desk) : Prop where
  orderly : Orderly (fun _ => True) desk
  fitted : Fitted desk.sagas (desk.reads 0) settled desk.venue
  ledger : ∃ ledger, LedgerOf desk ledger
  /-- The bus holds the fills that wait at the venue. -/
  waits : fillsIn desk.pending = (drain (desk.reads 0) desk.venue.unapplied).map Prod.fst
  kept : ∀ entry ∈ drain (desk.reads 0) desk.venue.unapplied, Kept desk.sagas (desk.reads 0) entry

theorem LedgerOf.reads_eq {desk : Desk} {ledger : VenueLedger} (of : LedgerOf desk ledger)
    (nowNs : Nanos) : ledger.reads nowNs = desk.reads nowNs := by
  simp only [VenueLedger.reads, of.accountNet, of.appliedFills, Desk.reads]

/-- A run of the ledger machine keeps track. -/
theorem tracks_run {ledger last : VenueLedger} {moves : List LedgerMove} (tracks : Tracks ledger)
    (ran : (ledgerMachine config.paper).run ledger moves = some last) : Tracks last :=
  Machine.run_induct Tracks tracks_step tracks ran

theorem Desk.Opens.level {desk : Desk} (opens : desk.Opens) : Level desk := by
  have orderly := opens.orderly
  obtain ⟨venue, pending, _, _, _⟩ := opens
  refine ⟨⟨orderly.keyed, orderly.counted, orderly.flows, orderly.backed,
    fun c resting there _ => orderly.answered c resting there id, orderly.named,
    orderly.remembered, orderly.readings, orderly.unknown⟩, fun cloid resting there => ?_,
    ⟨{ accountNet := desk.accountNet, appliedFills := (desk.reads 0).appliedFills },
      venue.symm, rfl, rfl, tracks_opened _ _⟩, ?_, fun entry member => ?_⟩
  · rw [venue] at there
    cases there
  · rw [pending, venue]
    rfl
  · rw [venue] at member
    cases member

/-! ## An operation of the venue -/

/-- What a drain keeps, it keeps once more. -/
theorem drain_drain (reads : Reads) (unapplied : List (FillReport × Side)) :
    drain reads (drain reads unapplied) = drain reads unapplied :=
  List.filter_filter.trans (List.filter_congr fun _ _ => Bool.and_self _)

theorem drain_append (reads : Reads) (first second : List (FillReport × Side)) :
    drain reads (first ++ second) = drain reads first ++ drain reads second :=
  List.filter_append ..

theorem drain_kept {made : List (FillReport × Side)}
    (kept : ∀ entry ∈ made, Kept sagas reads entry) : drain reads made = made :=
  List.filter_eq_self.mpr fun entry member => decide_eq_true (kept entry member).waits

theorem filled_during {desk with_ : Desk} (same : with_.pending = desk.pending) (turn : Turn) :
    desk.filled (with_.during turn) = fillsIn turn.published := by
  simp [Desk.filled, Desk.during, same]

/-- **An operation keeps the desk level**, and its fills shrink the net. -/
theorem Level.during {desk : Desk} (level : Level desk) {turn : Turn} {nowNs : Nanos}
    (carries : Carries desk.sagas sagas)
    (same : SameFills (desk.reads 0) (({ desk with sagas := sagas } : Desk).reads 0))
    (orderly : Orderly (fun _ => True) (({ desk with sagas := sagas } : Desk).during turn))
    (ledger : ∃ ledger, LedgerOf (({ desk with sagas := sagas } : Desk).during turn) ledger)
    (keeps : Keeps sagas (desk.reads nowNs) { venue := desk.venue } turn) :
    Level (({ desk with sagas := sagas } : Desk).during turn) ∧
      ShrinksNet sagas (desk.venue.net (desk.reads 0)) (fillsIn turn.published) := by
  obtain ⟨made, did⟩ := keeps.made
  obtain ⟨reports, published, fills⟩ := did.published
  replace published : turn.published = reports := by simpa using published
  have keptNow : ∀ entry ∈ made, Kept sagas (desk.reads 0) entry := fun entry member =>
    ⟨(did.kept entry member).saga, (did.kept entry member).waits⟩
  have drained : drain (desk.reads 0) turn.venue.unapplied =
      drain (desk.reads 0) desk.venue.unapplied ++ made := by
    rw [did.unapplied, drain_append, drain_kept keptNow]
  have carried : drain ((({ desk with sagas := sagas } : Desk).during turn).reads 0)
      turn.venue.unapplied = drain (desk.reads 0) desk.venue.unapplied ++ made :=
    (same.drain _).trans drained
  refine ⟨⟨orderly, ?_, ledger, ?_, fun entry member => ?_⟩, ?_⟩
  · exact Fitted.carried keeps.fitted (.refl _)
      (same.venueNet _) fun _ => same.unbooked
  · show fillsIn (desk.pending ++ turn.published) =
      (drain ((({ desk with sagas := sagas } : Desk).during turn).reads 0)
        turn.venue.unapplied).map Prod.fst
    rw [carried, fillsIn_append, level.waits, published, fills, List.map_append]
  · replace member : entry ∈ drain ((({ desk with sagas := sagas } : Desk).during turn).reads 0)
      turn.venue.unapplied := member
    rw [carried] at member
    rcases List.mem_append.mp member with old | new
    · have kept := level.kept entry old
      exact kept.carried carries ((same.fills _ _).not.mpr kept.waits)
    · have kept := keptNow entry new
      exact kept.carried (.refl _)
        ((same.fills _ _).not.mpr kept.waits)
  · rw [published, fills]
    exact did.shrinks

/-- The ledger of the desk after an operation. -/
theorem LedgerOf.during {desk : Desk} {ledger : VenueLedger} (of : LedgerOf desk ledger)
    {turn : Turn} {nowNs : Nanos}
    (path : VenuePath config.paper (desk.reads nowNs) desk.venue turn.venue) :
    LedgerOf (desk.during turn) (ledger.during turn.venue) := by
  rw [← of.reads_eq nowNs, ← of.venue] at path
  obtain ⟨_, moves, ran⟩ := path_run path
  exact ⟨rfl, of.accountNet, of.appliedFills, tracks_run of.tracks ran⟩

theorem SameFills.refl (reads : Reads) : SameFills reads reads := ⟨rfl, fun _ _ => Iff.rfl⟩

variable (config) in
/-- An operation over the sagas as they are. -/
theorem Level.operates {desk : Desk} (level : Level desk) {turn : Turn} (nowNs : Nanos)
    (orderly : Orderly (fun _ => True) (desk.during turn))
    (path : VenuePath config.paper (desk.reads nowNs) desk.venue turn.venue)
    (keeps : Keeps desk.sagas (desk.reads nowNs) { venue := desk.venue } turn) :
    Level (desk.during turn) ∧
      ShrinksNet desk.sagas (desk.venue.net (desk.reads 0)) (desk.filled (desk.during turn)) := by
  obtain ⟨ledger, of⟩ := level.ledger
  rw [filled_during rfl]
  exact level.during (.refl _) (.refl _) orderly
    ⟨_, of.during path⟩ keeps

/-- The ids the store shows once a saga is written with one id more. -/
theorem reads_set {desk : Desk} {cloid : Cloid} {next : Order} {id : EventId}
    (grows : next.appliedEventIds = insert id ((desk.reads 0).appliedFills cloid)) :
    (({ desk with sagas := desk.sagas.set cloid next } : Desk).reads 0).appliedFills =
      fun other => if other = cloid then insert id ((desk.reads 0).appliedFills other)
        else (desk.reads 0).appliedFills other := by
  funext other
  simp only [Desk.reads, Dict.get_set] at grows ⊢
  by_cases own : cloid = other
  · subst own
    rw [if_pos rfl, if_pos rfl]
    exact grows
  · rw [if_neg own, if_neg (Ne.symm own)]

/-- No fill is booked by it where the id is none a fill is booked under. -/
theorem sameFills_set {desk : Desk} {cloid : Cloid} {next : Order} {id : EventId}
    (grows : next.appliedEventIds = insert id ((desk.reads 0).appliedFills cloid))
    (other : isFillId id = false) :
    SameFills (desk.reads 0)
      (({ desk with sagas := desk.sagas.set cloid next } : Desk).reads 0) := by
  refine ⟨rfl, fun c trade => ?_⟩
  rw [reads_set grows]
  have ne : EventId.fill c trade ≠ id := by
    rintro rfl
    cases other
  by_cases own : c = cloid
  · subst own
    simp [ne]
  · simp [own]

/-- A saga is written with one id more, which no fill is booked under. -/
theorem LedgerOf.noted {desk : Desk} {ledger : VenueLedger} (of : LedgerOf desk ledger)
    {cloid : Cloid} {next : Order} {id : EventId}
    (grows : next.appliedEventIds = insert id ((desk.reads 0).appliedFills cloid))
    (other : isFillId id = false) :
    LedgerOf { desk with sagas := desk.sagas.set cloid next } (ledger.book cloid id) := by
  refine ⟨of.venue, of.accountNet, ?_, of.tracks.note cloid other⟩
  rw [reads_set grows]
  show (fun other => if other = cloid then insert id (ledger.appliedFills other)
    else ledger.appliedFills other) = _
  rw [of.appliedFills]

variable (config) in
/-- **A placement keeps the desk level.** -/
theorem Level.placed {desk : Desk} (level : Level desk) {signal : PlaceSignal}
    {quantity : Decimal} {price : Option Decimal} {basis : Option Basis} {model : FillModel}
    {nowNs : Nanos} {request : PlaceOrder} {turn : Turn} (fills : model.Fills)
    (positive : 0 < quantity) (new : desk.sagas.get (config.deriveCloid signal.signalId) = none)
    (built : placeOrderOf (Desk.opened config signal quantity price basis nowNs) = .ok request)
    (placed : Turn.place config.paper model { venue := desk.venue } (desk.reads nowNs) request =
      .ok turn) :
    Level ({ desk with
        sagas := desk.sagas.set (config.deriveCloid signal.signalId)
          (Desk.opened config signal quantity price basis nowNs) }.during turn) ∧
      ShrinksNet (desk.sagas.set (config.deriveCloid signal.signalId)
          (Desk.opened config signal quantity price basis nowNs))
        (desk.venue.net (desk.reads 0)) (fillsIn turn.published) := by
  obtain ⟨counted, tally⟩ := opened_counted config signal positive price basis nowNs
  obtain ⟨cloid, symbol, side, size, _, _, reduceOnly, _⟩ := placeOrderOf_terms built
  have nothing : (desk.reads nowNs).appliedFills (config.deriveCloid signal.signalId) = ∅ := by
    simp only [Desk.reads, new]
    rfl
  have grows : (Desk.opened config signal quantity price basis nowNs).appliedEventIds =
      insert (EventId.state (config.deriveCloid signal.signalId) .submitted)
        ((desk.reads 0).appliedFills (config.deriveCloid signal.signalId)) := by
    rw [show (desk.reads 0).appliedFills (config.deriveCloid signal.signalId) = ∅ from nothing]
    rfl
  generalize is : Desk.opened config signal quantity price basis nowNs = saga at *
  have own : saga.cloid = config.deriveCloid signal.signalId := by rw [← is]; rfl
  have unfilled : saga.cumQty = 0 := by rw [← is]; rfl
  have asked : saga.quantity = quantity := by rw [← is]; rfl
  rw [← own] at new nothing grows ⊢
  have carries : Carries desk.sagas (desk.sagas.set saga.cloid saga) := carries_set new
  have fresh : desk.venue.book.get request.cloid = none := by
    rw [cloid]
    exact level.orderly.fresh new
  have owns : Owns (desk.sagas.set saga.cloid saga) request saga :=
    ⟨by rw [cloid, Dict.get_set_self], symbol.symm, side.symm, reduceOnly.symm⟩
  have unbooked : Unbooked (desk.reads nowNs) desk.venue request.cloid := by
    intro number _
    rw [cloid, nothing]
    exact Finset.notMem_empty _
  have fitted : Fitted (desk.sagas.set saga.cloid saga) (desk.reads nowNs) settled desk.venue :=
    level.fitted.carried carries rfl fun _ was => was
  have sized : 0 < request.quantity := by rw [size, unfilled, sub_zero, asked]; exact positive
  obtain ⟨ledger, of⟩ := level.ledger
  have noted := of.during (place_venuePath fresh placed)
  refine level.during carries (sameFills_set grows rfl)
    (level.orderly.placed trivial new counted tally unfilled (asked ▸ positive) built placed)
    ⟨_, noted.noted grows rfl⟩ (Fitted.place fills fitted owns unbooked fresh sized placed)

/-! ## A dispatch -/

/-- A report that books nothing leaves the net as it is. -/
theorem book_quiet {desk : Desk} {cloid : Cloid} {order next : Order}
    (cum : next.cumQty = order.cumQty) :
    desk.book cloid order next = { desk with sagas := desk.sagas.set cloid next } := by
  have net : (fun symbol => if symbol = order.symbol then
      desk.accountNet symbol + order.side.sign * (next.cumQty - order.cumQty)
      else desk.accountNet symbol) = desk.accountNet := by
    funext symbol
    rw [cum, sub_self, mul_zero, add_zero, ite_self]
  simp only [Desk.book, net]

/-- Writing a saga back as it was shows the same ids. -/
theorem reads_same {desk : Desk} {cloid : Cloid} {order : Order}
    (held : desk.sagas.get cloid = some order) :
    ({ desk with sagas := desk.sagas.set cloid order } : Desk).reads 0 = desk.reads 0 := by
  simp only [Desk.reads, Reads.mk.injEq, true_and, and_true]
  funext other
  rw [Dict.get_set]
  split
  · rename_i same
    rw [← same, held]
  · rfl

/-- **A report that is no fill keeps the desk level.** -/
theorem Level.notes {desk after : Desk} (level : Level desk) {report : ExecutionReport}
    {rest : List ExecutionReport} {order next : Order} {nowNs : Nanos}
    (front : desk.pending = report :: rest) (plain : fillsIn [report] = [])
    (held : desk.sagas.get (reaches report) = some order)
    (absorbed : absorb order report nowNs = .ok next)
    (is : after = ({ desk with pending := rest } : Desk).book (reaches report) order next)
    (orderly : Orderly (fun _ => True) after) : Level after := by
  have pending : fillsIn rest = fillsIn desk.pending := by
    rw [front, ← List.singleton_append, fillsIn_append, plain, List.nil_append]
  have carries := carries_absorbed held absorbed
  obtain ⟨ledger, of⟩ := level.ledger
  have quietly : ∀ same : SameFills (desk.reads 0)
      (({ desk with sagas := desk.sagas.set (reaches report) next } : Desk).reads 0),
      next.cumQty = order.cumQty →
      (∃ ledger, LedgerOf { desk with sagas := desk.sagas.set (reaches report) next } ledger) →
      Level after := by
    rintro same cum ⟨ledger, of⟩
    rw [book_quiet cum] at is
    subst is
    refine ⟨orderly, level.fitted.carried carries (same.venueNet _) fun _ => same.unbooked,
      ⟨ledger, of.venue, of.accountNet, of.appliedFills, of.tracks⟩, ?_, fun entry member => ?_⟩
    · show fillsIn rest = (drain (({ desk with
        sagas := desk.sagas.set (reaches report) next } : Desk).reads 0) desk.venue.unapplied).map _
      rw [same.drain, pending]
      exact level.waits
    · replace member : entry ∈ drain (({ desk with
        sagas := desk.sagas.set (reaches report) next } : Desk).reads 0) desk.venue.unapplied :=
        member
      rw [same.drain] at member
      have kept := level.kept entry member
      exact kept.carried carries ((same.fills _ _).not.mpr kept.waits)
  rcases absorb_ok absorbed with ⟨rfl, _⟩ | moved
  · have same := reads_same held
    exact quietly (same ▸ .refl _) rfl
      ⟨ledger, of.venue, of.accountNet, by rw [same]; exact of.appliedFills, of.tracks⟩
  · have did := moved.did
    cases report with
    | refused cloid symbol => exact did.elim
    | fill fill => cases plain
    | status report =>
        have keyed := level.orderly.keyed _ _ held
        have grows : next.appliedEventIds = insert (EventId.state order.cloid report.status)
            ((desk.reads 0).appliedFills (reaches (.status report))) := by
          rw [did.2.2.2.2.2.2.2]
          simp only [Desk.reads, held]
          rfl
        exact quietly (sameFills_set grows rfl) did.2.2.2.2.2.2.1 ⟨_, of.noted grows rfl⟩

theorem LedgerOf.net {desk : Desk} {ledger : VenueLedger} (of : LedgerOf desk ledger) :
    desk.venue.net (desk.reads 0) = fun symbol => ledger.startNet symbol +
      ((ledger.recorded.filter fun entry => !held ledger.startApplied entry).map
        (signedIn symbol)).sum := by
  funext symbol
  rw [← of.reads_eq 0, ← of.venue]
  exact of.tracks.net 0 symbol

/-- What waits at the venue was recorded and is not applied, and no id waits twice. -/
theorem LedgerOf.waiting {desk : Desk} {ledger : VenueLedger} (of : LedgerOf desk ledger) :
    drain (desk.reads 0) desk.venue.unapplied =
      ledger.recorded.filter fun entry => !held ledger.appliedFills entry := by
  rw [← of.tracks.waits, drain_eq, of.venue, of.appliedFills]

/-- What waits once one of those that wait is applied. -/
theorem drain_applied {before later : Reads} {unapplied rest : List (FillReport × Side)}
    {entry : FillReport × Side} (waits : drain before unapplied = entry :: rest)
    (once : ((entry :: rest).map fillId).Nodup)
    (applied : ∀ other, held later.appliedFills other =
      (decide (fillId other = fillId entry) || held before.appliedFills other)) :
    drain later unapplied = rest := by
  have dropped : drain later unapplied =
      (drain before unapplied).filter fun other => !decide (fillId other = fillId entry) := by
    rw [drain_eq, drain_eq, List.filter_filter]
    refine List.filter_congr fun other _ => ?_
    rw [applied, Bool.not_or]
  obtain ⟨absent, _⟩ := List.nodup_cons.mp once
  rw [dropped, waits, List.filter_cons_of_neg (by simp)]
  refine List.filter_eq_self.mpr fun other member => ?_
  have ne : fillId other ≠ fillId entry := fun same =>
    absent (List.mem_map.mpr ⟨other, member, same⟩)
  simp [ne]

/-- The saga took the fill at the front; the venue, which made it, did not book it once
more. -/
structure Takes (desk after : Desk) (rest : List ExecutionReport) (entry : FillReport × Side)
    (order next : Order) : Prop where
  held : desk.sagas.get entry.1.cloid = some order
  symbol : entry.1.symbol = order.symbol
  side : entry.2 = order.side
  cum : next.cumQty = order.cumQty + entry.1.quantity
  grows : next.appliedEventIds =
    insert (fillId entry) ((desk.reads 0).appliedFills entry.1.cloid)
  carries : Carries desk.sagas after.sagas
  is : after = ({ desk with pending := rest } : Desk).book entry.1.cloid order next

/-- **The fill at the front is the first that waits, and its saga takes it.** -/
theorem Level.takes {desk after : Desk} (level : Level desk) {fill : FillReport}
    {rest : List ExecutionReport} {nowNs : Nanos} (front : desk.pending = .fill fill :: rest)
    (handled : Desk.handle { desk with pending := rest } (.fill fill) nowNs = .ok after) :
    ∃ entry waiting order next, drain (desk.reads 0) desk.venue.unapplied = entry :: waiting ∧
      fillsIn rest = waiting.map Prod.fst ∧ Takes desk after rest entry order next := by
  obtain ⟨ledger, of⟩ := level.ledger
  have waits := level.waits
  rw [front, fillsIn_fill] at waits
  cases drained : drain (desk.reads 0) desk.venue.unapplied with
  | nil => rw [drained] at waits; cases waits
  | cons entry waiting =>
      rw [drained, List.map_cons, List.cons.injEq] at waits
      obtain ⟨rfl, later⟩ := waits
      have here : entry ∈ drain (desk.reads 0) desk.venue.unapplied := by
        rw [drained]
        exact List.mem_cons_self
      obtain ⟨⟨order, held_, symbol, side⟩, unapplied⟩ := level.kept entry here
      obtain ⟨number, named, _, within⟩ :=
        of.tracks.numbered entry (List.mem_filter.mp (of.waiting ▸ here)).1
      rw [of.venue] at within
      have keyed := level.orderly.keyed _ _ held_
      have ids : (desk.reads 0).appliedFills entry.1.cloid = order.appliedEventIds := by
        simp only [Desk.reads, held_]
        rfl
      have heard : desk.venue.onFillReport entry.1 = .ok desk.venue := by
        simp only [PaperExchange.onFillReport, named, if_pos within]
      have there : ({ desk with pending := rest } : Desk).sagas.get entry.1.cloid = some order :=
        held_
      obtain ⟨venue, next, hears, absorbed, is⟩ := handle_fill there handled
      replace hears : desk.venue.onFillReport entry.1 = .ok venue := hears
      cases heard.symm.trans hears
      rcases absorb_ok absorbed with ⟨_, idle⟩ | moved
      · rw [ids, ← keyed] at unapplied
        exact absurd idle.2 unapplied
      · obtain ⟨_, _, _, _, _, cum, grows⟩ := moved.did
        refine ⟨entry, waiting, order, next, rfl, later, held_, symbol, side, cum, ?_, ?_, is⟩
        · rw [grows, ids, keyed]
          rfl
        · rw [is]
          exact carries_absorbed held_ absorbed

theorem Takes.venue {desk after : Desk} {rest : List ExecutionReport} {entry : FillReport × Side}
    {order next : Order} (takes : Takes desk after rest entry order next) :
    after.venue = desk.venue := by
  rw [takes.is]
  rfl

/-- The store shows that one fill more. -/
theorem Takes.applied {desk after : Desk} {rest : List ExecutionReport}
    {entry : FillReport × Side} {order next : Order}
    (takes : Takes desk after rest entry order next) :
    (after.reads 0).appliedFills = fun other => if other = entry.1.cloid then
        insert (fillId entry) ((desk.reads 0).appliedFills other)
      else (desk.reads 0).appliedFills other := by
  rw [takes.is]
  exact reads_set takes.grows

theorem Takes.held_iff {desk after : Desk} {rest : List ExecutionReport}
    {entry : FillReport × Side} {order next : Order}
    (takes : Takes desk after rest entry order next) (other : FillReport × Side) :
    Paper.held (after.reads 0).appliedFills other = (decide (fillId other = fillId entry) ||
      Paper.held (desk.reads 0).appliedFills other) := by
  rw [Paper.held, takes.applied]
  by_cases own : other.1.cloid = entry.1.cloid
  · simp [Paper.held, own]
  · have ne : fillId other ≠ fillId entry := fun same => own (EventId.fill.inj same).1
    simp [Paper.held, own, ne]

/-- The ledger applies it too. -/
theorem LedgerOf.takes {desk after : Desk} {ledger : VenueLedger} (of : LedgerOf desk ledger)
    {rest : List ExecutionReport} {entry : FillReport × Side} {order next : Order}
    (takes : Takes desk after rest entry order next)
    (waits : entry ∈ drain (desk.reads 0) desk.venue.unapplied) :
    LedgerOf after ((ledger.book entry.1.cloid (fillId entry)).accrue entry) := by
  obtain ⟨recorded, unheld⟩ := List.mem_filter.mp (of.waiting ▸ waits)
  refine ⟨of.venue.trans takes.venue.symm, ?_, ?_, of.tracks.apply recorded (by simpa using unheld)⟩
  · rw [takes.is]
    funext other
    show ledger.accountNet other + signedIn other entry = if other = order.symbol then
      desk.accountNet other + order.side.sign * (next.cumQty - order.cumQty)
      else desk.accountNet other
    rw [of.accountNet, signedIn, takes.symbol, takes.side, takes.cum, add_sub_cancel_left]
    by_cases own : other = order.symbol
    · rw [if_pos own.symm, if_pos own]
    · rw [if_neg (Ne.symm own), if_neg own, add_zero]
  · refine Eq.trans ?_ takes.applied.symm
    show (fun other => if other = entry.1.cloid then
      insert (fillId entry) (ledger.appliedFills other) else ledger.appliedFills other) = _
    rw [of.appliedFills]

/-- The venue's next fills are none it made, so none the store shows now. -/
theorem Takes.unbooked {desk after : Desk} {rest : List ExecutionReport}
    {entry : FillReport × Side} {order next : Order}
    (takes : Takes desk after rest entry order next) {number : ℕ}
    (named : fillNumber entry.1 = some number)
    (within : number ≤ desk.venue.fillCount entry.1.cloid) {cloid : Cloid}
    (unbooked : Unbooked (desk.reads 0) desk.venue cloid) :
    Unbooked (after.reads 0) desk.venue cloid := by
  intro past greater
  rw [takes.applied]
  have ne : EventId.fill cloid (tradeId cloid past) ≠ fillId entry := by
    intro same
    obtain ⟨own, trade⟩ := EventId.fill.inj same
    have again := fillNumber_tradeId (own ▸ trade.symm :
      entry.1.tradeId = tradeId entry.1.cloid past)
    cases named.symm.trans again
    exact absurd (own ▸ within) (not_le.mpr greater)
  by_cases own : cloid = entry.1.cloid
  · simp only [own, if_true, Finset.mem_insert, not_or]
    exact ⟨own ▸ ne, own ▸ unbooked past greater⟩
  · simp only [if_neg own]
    exact unbooked past greater

/-- **A fill that is dispatched goes from the venue's side of the net to the store's.** -/
theorem Level.books {desk after : Desk} (level : Level desk) {fill : FillReport}
    {rest : List ExecutionReport} {nowNs : Nanos} (front : desk.pending = .fill fill :: rest)
    (handled : Desk.handle { desk with pending := rest } (.fill fill) nowNs = .ok after)
    (orderly : Orderly (fun _ => True) after) : Level after := by
  obtain ⟨entry, waiting, order, next, drained, later, takes⟩ := level.takes front handled
  obtain ⟨ledger, of⟩ := level.ledger
  have here : entry ∈ drain (desk.reads 0) desk.venue.unapplied := by
    rw [drained]
    exact List.mem_cons_self
  have ofAfter := of.takes takes here
  have net : after.venue.net (after.reads 0) = desk.venue.net (desk.reads 0) :=
    ofAfter.net.trans of.net.symm
  have once : ((entry :: waiting).map fillId).Nodup := by
    rw [← drained, of.waiting]
    exact of.tracks.once.sublist (List.filter_sublist.map _)
  have left : drain (after.reads 0) after.venue.unapplied = waiting := by
    rw [takes.venue]
    exact drain_applied drained once takes.held_iff
  obtain ⟨number, named, _, within⟩ :=
    of.tracks.numbered entry (List.mem_filter.mp (of.waiting ▸ here)).1
  rw [of.venue] at within
  refine ⟨orderly, ?_, ⟨_, ofAfter⟩, ?_, fun other member => ?_⟩
  · rw [takes.venue] at net ⊢
    exact level.fitted.carried takes.carries net fun _ => takes.unbooked named within
  · rw [left, ← later, takes.is]
    rfl
  · have unheld : Paper.held (after.reads 0).appliedFills other = false := by
      rw [drain_eq] at member
      simpa using (List.mem_filter.mp member).2
    rw [left] at member
    have kept := level.kept other (by rw [drained]; exact List.mem_cons_of_mem _ member)
    exact kept.carried takes.carries (of_decide_eq_false unheld)

/-- Handling what is no fill is the saga's affair alone. -/
theorem handle_plain {desk after : Desk} {report : ExecutionReport} {order : Order}
    {nowNs : Nanos} (plain : fillsIn [report] = [])
    (held_ : desk.sagas.get (reaches report) = some order)
    (handled : desk.handle report nowNs = .ok after) :
    ∃ next, absorb order report nowNs = .ok next ∧
      after = desk.book (reaches report) order next := by
  cases report with
  | fill fill => cases plain
  | status report | refused cloid symbol =>
      simp only [Desk.handle, held_] at handled
      cases absorbed : absorb order _ nowNs with
      | error violation => rw [absorbed] at handled; cases handled
      | ok next =>
          rw [absorbed] at handled
          cases handled
          exact ⟨next, rfl, rfl⟩

/-- **A dispatch keeps the desk level.** -/
theorem Level.dispatches {desk after : Desk} (level : Level desk) {report : ExecutionReport}
    {rest : List ExecutionReport} {nowNs : Nanos} (front : desk.pending = report :: rest)
    (handled : Desk.handle { desk with pending := rest } report nowNs = .ok after) :
    Level after := by
  have orderly := level.orderly.dispatches front handled
  by_cases plain : fillsIn [report] = []
  · cases held_ : desk.sagas.get (reaches report) with
    | none =>
        have absent := (level.orderly.unknown _ held_).1 report
          (by rw [front]; exact List.mem_cons_self)
        exact absurd rfl absent
    | some order =>
        have there : ({ desk with pending := rest } : Desk).sagas.get (reaches report) =
          some order := held_
        obtain ⟨next, absorbed, is⟩ := handle_plain plain there handled
        exact level.notes front plain held_ absorbed is orderly
  · cases report with
    | fill fill => exact level.books front handled orderly
    | status report => exact absurd rfl plain
    | refused cloid symbol => exact absurd rfl plain

/-! ## A restart -/

/-- **An order put back at no more than a net it reduces fits it.** -/
theorem rebuild_fitted {reads : Reads} {venue after : PaperExchange} {saga : Order}
    (fitted : Fitted sagas reads settled venue) (waiting : venue.unapplied = [])
    (held : sagas.get saga.cloid = some saga) (counted : Counted saga)
    (ids : reads.appliedFills saga.cloid = saga.appliedEventIds)
    (working : saga.state.isWorking = true)
    (reduces : ∀ request, placeOrderOf saga = .ok request → request.reduceOnly = true →
      ({} : PaperExchange).reduces reads request = true)
    (rebuilds : PaperExchange.rebuild reads venue saga = .ok after) :
    Fitted sagas reads settled after := by
  have unapplied := rebuild_unapplied rebuilds
  have counts := rebuild_fillCount rebuilds
  simp only [PaperExchange.rebuild] at rebuilds
  cases built : placeOrderOf saga with
  | error violation => rw [built] at rebuilds; cases rebuilds
  | ok request =>
      obtain ⟨cloid, symbol, side, size, _, _, reduceOnly, _⟩ := placeOrderOf_terms built
      simp only [built] at rebuilds
      cases kind : request.asLimit with
      | none => rw [kind] at rebuilds; cases rebuilds
      | some limit =>
          simp only [kind, Except.ok.injEq] at rebuilds
          have is := PlaceOrder.asLimit_eq kind
          have lasts : saga.isTerminal = false := by
            cases state : saga.state <;> simp [state, Order.isTerminal, OrderState.isWorking,
              OrderState.isTerminal] at *
          have positive : 0 < request.quantity := by
            rw [size]
            exact sub_pos.mpr (counted.short lasts)
          have net : venue.net reads = ({} : PaperExchange).net reads := net_congr waiting
          have lets : request.reduceOnly = true → venue.reduces reads request = true :=
              fun yes => by
            rw [reduces_congr (congrFun net _)]
            exact reduces request built yes
          obtain ⟨sized, within⟩ := workingSize_within positive lets
          have later : after.net reads = venue.net reads := net_congr unapplied
          have book : after.book = venue.book.rest limit (venue.workingSize reads request) := by
            rw [← rebuilds]
            rfl
          intro c resting there
          rw [book, RestingBook.get_rest] at there
          split at there
          · cases there
            subst is
            refine ⟨⟨saga, by rw [Resting.put_order, cloid, held], symbol.symm, side.symm,
              reduceOnly.symm⟩, fun number past => ?_, le_refl _, ?_, fun yes _ => ?_⟩
            · rw [Resting.put_order] at past ⊢
              rw [counts, if_pos cloid.symm] at past
              rw [cloid, ids, counted.numbered]
              rintro ⟨other, _, upTo, same⟩
              cases tradeId_inj same
              exact absurd past (not_lt.mpr upTo)
            · rw [Resting.put_remaining]
              exact lt_min sized positive
            · rw [Resting.put_order, reduces_congr (congrFun later _), congrFun later,
                Resting.put_remaining]
              exact ⟨lets yes, (min_le_left _ _).trans (within yes)⟩
          · rename_i ne
            have was := fitted c resting there
            have own := venue.book.keyed _ _ there
            have elsewhere : saga.cloid ≠ resting.order.cloid := by
              rw [own, ← cloid, ← is]
              exact ne
            refine ⟨was.owns, fun number past => was.unbooked number ?_, was.started,
              was.positive, fun yes _ => ?_⟩
            · rwa [counts, if_neg elsewhere] at past
            · rw [reduces_congr (congrFun later _), congrFun later]
              exact was.within yes id

/-- So does a book put back from rows whose orders all have a net to reduce. -/
theorem foldlM_rebuild_fitted {reads : Reads} {venue after : PaperExchange} {rows : List Order}
    (fitted : Fitted sagas reads settled venue) (waiting : venue.unapplied = [])
    (each : ∀ saga ∈ rows, sagas.get saga.cloid = some saga ∧ Counted saga ∧
      reads.appliedFills saga.cloid = saga.appliedEventIds ∧ saga.state.isWorking = true ∧
      ∀ request, placeOrderOf saga = .ok request → request.reduceOnly = true →
        ({} : PaperExchange).reduces reads request = true)
    (starts : rows.foldlM (PaperExchange.rebuild reads) venue = .ok after) :
    Fitted sagas reads settled after := by
  induction rows generalizing venue with
  | nil =>
      cases starts
      exact fitted
  | cons saga rest ih =>
      rw [List.foldlM_cons] at starts
      obtain ⟨held, counted, ids, working, reduces⟩ := each saga List.mem_cons_self
      cases first : PaperExchange.rebuild reads venue saga with
      | error violation => rw [first] at starts; cases starts
      | ok between =>
          rw [first] at starts
          exact ih (rebuild_fitted fitted waiting held counted ids working reduces first)
            ((rebuild_unapplied first).trans waiting)
            (fun other member => each other (List.mem_cons_of_mem _ member)) starts

/-- **A restart that leaves no order without a net to reduce begins level.** -/
theorem Level.restarts {desk : Desk} (level : Level desk) {nowNs : Nanos} {venue : PaperExchange}
    (still : StillReduces desk nowNs)
    (starts : PaperExchange.start (desk.reads nowNs) {} desk.sagas.values = .ok venue) :
    Level { desk with venue := venue, pending := [], readings := [] } := by
  obtain ⟨ledger, of⟩ := level.ledger
  have nothing : venue.unapplied = [] := start_unapplied starts
  have empty : Fitted desk.sagas (desk.reads nowNs) settled {} := fun _ _ there => by cases there
  have fitted : Fitted desk.sagas (desk.reads nowNs) settled venue := by
    refine foldlM_rebuild_fitted empty rfl (fun saga member => ?_) starts
    obtain ⟨row, fits⟩ := List.mem_filter.mp member
    obtain ⟨cloid, held⟩ := (Dict.mem_values _ _).mp row
    have keyed := level.orderly.keyed _ _ held
    simp only [Bool.and_eq_true] at fits
    rw [← keyed] at held
    refine ⟨held, level.orderly.counted _ _ held, ?_, fits.1.1.1, still saga member⟩
    simp only [Desk.reads, held]
    rfl
  refine ⟨restart_orderly level.orderly.keyed level.orderly.counted starts, ?_,
    ⟨ledger.restarted venue, rfl, of.accountNet, of.appliedFills, tracks_restarted nothing⟩, ?_,
    fun entry member => ?_⟩
  · exact fitted.carried (.refl _) rfl fun _ was => was
  · show fillsIn [] = (drain (desk.reads 0) venue.unapplied).map Prod.fst
    rw [nothing]
    rfl
  · replace member : entry ∈ drain (desk.reads 0) venue.unapplied := member
    rw [nothing] at member
    cases member

/-! ## The run -/

/-- Dropping the applied fills leaves the net. -/
theorem net_dropped (reads : Reads) (venue : PaperExchange) (ticks : Dict Symbol MarketTick) :
    ({ venue with
      latestTick := ticks
      unapplied := drain reads venue.unapplied } : PaperExchange).net reads = venue.net reads := by
  funext symbol
  rw [PaperExchange.net, PaperExchange.net, signedSize, signedSize]
  exact congrArg (fun entries : List (FillReport × Side) => reads.accountNet symbol +
    (entries.map fun entry => if entry.1.symbol = symbol then
      entry.2.sign * entry.1.quantity else 0).sum) (drain_drain reads venue.unapplied)

/-- A tick is cached, and the applied fills are dropped, before the book is matched. -/
theorem Level.caches {desk : Desk} (level : Level desk) (tick : MarketTick) (nowNs : Nanos) :
    Level { desk with venue := { desk.venue with
      latestTick := desk.venue.latestTick.set tick.symbol tick
      unapplied := drain (desk.reads nowNs) desk.venue.unapplied } } := by
  obtain ⟨ledger, of⟩ := level.ledger
  have begun : Orderly (fun _ => True) (desk.during { venue := { desk.venue with
      latestTick := desk.venue.latestTick.set tick.symbol tick
      unapplied := drain (desk.reads nowNs) desk.venue.unapplied } }) :=
    level.orderly.idle rfl rfl rfl rfl
  simp only [Desk.during, List.append_nil] at begun
  have net := net_dropped (desk.reads 0) desk.venue (desk.venue.latestTick.set tick.symbol tick)
  refine ⟨begun, ?_, ⟨ledger.ticked tick, ?_, of.accountNet, of.appliedFills, ?_⟩, ?_,
    fun entry member => ?_⟩
  · exact level.fitted.leaves net (fun _ => rfl) (fun _ _ there => there) fun _ _ was => was
  · show ({ ledger.venue with
      latestTick := ledger.venue.latestTick.set tick.symbol tick
      unapplied := drain (ledger.reads 0) ledger.venue.unapplied } : PaperExchange) = _
    rw [of.venue, of.reads_eq]
    rfl
  · exact of.tracks.drop.elsewhere rfl rfl
  · show fillsIn desk.pending = (drain (desk.reads 0)
      (drain (desk.reads 0) desk.venue.unapplied)).map Prod.fst
    rw [drain_drain]
    exact level.waits
  · replace member : entry ∈ drain (desk.reads 0)
      (drain (desk.reads 0) desk.venue.unapplied) := member
    rw [drain_drain] at member
    exact level.kept entry member

theorem Orderly.during_self {exempt : Cloid → Prop} {desk : Desk} (orderly : Orderly exempt desk) :
    Orderly exempt (desk.during { venue := desk.venue }) :=
  orderly.idle rfl rfl rfl rfl

/-- Handling a report publishes nothing. -/
theorem handle_pending {desk after : Desk} {report : ExecutionReport} {nowNs : Nanos}
    (handled : desk.handle report nowNs = .ok after) : after.pending = desk.pending := by
  simp only [Desk.handle] at handled
  split at handled
  · cases handled
  · split at handled
    · cases handled
      rfl
    · rename_i order _
      cases absorbed : absorb order report nowNs with
      | error violation => rw [absorbed] at handled; cases handled
      | ok next =>
          rw [absorbed] at handled
          cases handled
          rfl

/-- What one step keeps: a level desk, and fills that shrink the net. -/
def StepsLevel (before after : Desk) : Prop :=
  Level after ∧ ShrinksNet after.sagas (before.venue.net (before.reads 0)) (before.filled after)

theorem StepsLevel.quiet {before after : Desk} (level : Level after)
    (none : before.filled after = []) : StepsLevel before after :=
  ⟨level, by rw [none]; trivial⟩

variable (config) in
/-- **One step keeps the desk level**, and its fills shrink the net. -/
theorem level_step {before after : Desk} {label : DeskLabel} (level : Level before)
    (fits : Fitting before label)
    (stepped : (deskMachine config).step before label = some after) : StepsLevel before after := by
  simp only [deskMachine] at stepped
  cases label with
  | place signal quantity price basis model nowNs =>
      dsimp only at stepped
      split at stepped
      · cases stepped
      · rename_i positive
        cases new : before.sagas.get (config.deriveCloid signal.signalId) with
        | some known =>
            rw [new] at stepped
            cases stepped
            exact .quiet level (by simp [Desk.filled])
        | none =>
            simp only [new, Option.bind_eq_some_iff, Option.map_eq_some_iff] at stepped
            obtain ⟨request, built, turn, placed, rfl⟩ := stepped
            have done := level.placed config fits (not_le.mp positive) new
              (ok_of_toOption built) (ok_of_toOption placed)
            have filled : before.filled (({ before with
                sagas := before.sagas.set (config.deriveCloid signal.signalId)
                  (Desk.opened config signal quantity price basis nowNs) } : Desk).during turn) =
                fillsIn turn.published := filled_during rfl turn
            exact ⟨done.1, filled ▸ done.2⟩
  | cancel refs nowNs =>
      cases stepped
      have begun := level.orderly.during_self
      have moves := @Turn.cancel_moves config.paper (before.reads nowNs) { venue := before.venue }
        refs
      have keeps : Keeps before.sagas (before.reads nowNs) { venue := before.venue }
          (Turn.cancel { venue := before.venue } (before.reads nowNs) refs) :=
        Fitted.cancel level.fitted.anytime refs
      exact level.operates config nowNs (begun.moves moves) moves.venuePath keeps
  | tick tick model nowNs =>
      simp only [Option.map_eq_some_iff] at stepped
      obtain ⟨turn, ticked, rfl⟩ := stepped
      replace ticked := ok_of_toOption ticked
      have cached := level.caches tick nowNs
      have begun := cached.orderly.during_self
      have moves := Turn.matchBook_moves ticked
      have done := cached.operates config nowNs (begun.moves moves)
        moves.venuePath (Fitted.matchBook fits cached.fitted.anytime ticked)
      refine ⟨done.1, ?_⟩
      rw [← net_dropped (before.reads 0) before.venue
        (before.venue.latestTick.set tick.symbol tick)]
      exact done.2
  | dispatch nowNs =>
      cases front : before.pending with
      | nil => rw [front] at stepped; cases stepped
      | cons report rest =>
          simp only [front] at stepped
          have handled := ok_of_toOption stepped
          refine .quiet (level.dispatches front handled) ?_
          have pending : after.pending = rest := handle_pending handled
          rw [Desk.filled, pending, front, List.drop_eq_nil_of_le (by simp), fillsIn_nil]
  | restart nowNs =>
      obtain ⟨venue, starts, rfl⟩ := Option.map_eq_some_iff.mp stepped
      exact .quiet (level.restarts fits (ok_of_toOption starts)) (by simp [Desk.filled])
  | redeliver report nowNs => exact fits.elim
  | read cloid => exact fits.elim
  | conclude cloid view conclusion nowNs => exact fits.elim

/-- **A reduce-only fill shrinks the net.**  In every run of placements, ticks, cancels,
dispatches and restarts over models that fill, none of whose restarts puts back a
reduce-only order with no net to reduce, every fill of the last step has a positive size,
and one of a reduce-only order brings the account net in its symbol nearer to zero and not
past it, the fills before it counted. -/
theorem reduceOnly_shrinks {desk before after : Desk} {labels : List DeskLabel} {label : DeskLabel}
    (opens : desk.Opens) (fits : (deskMachine config).Meets Fitting desk (labels ++ [label]))
    (ran : (deskMachine config).run desk labels = some before)
    (stepped : (deskMachine config).step before label = some after) :
    ShrinksNet after.sagas (before.venue.net (before.reads 0)) (before.filled after) := by
  have level : Level before :=
    Machine.run_induct_of Fitting Level
      (fun level fits stepped => (level_step config level fits stepped).1) opens.level
      fits.append ran
  exact (level_step config level (fits.after ran).1 stepped).2

namespace Sample

/-- Two exits of one position, each under a cloid of its own. -/
def exits : DeskConfig where
  deriveCloid signal :=
    if signal.seq = 1 then "0x11" else if signal.seq = 2 then "0x12" else "0x13"
  reconcile := { inflightMaxAttempts := 3, ghostGraceNs := 90, recentOrderProtectionNs := 10 }

def entersLong : PlaceSignal where
  strategyId := ⟨"closer", by decide⟩
  symbol := "ETH"
  seq := 1
  side := .buy
  quantity := 5
  orderType := .market
  timeInForce := .ioc

/-- A reduce-only SELL of all of it, at this price. -/
def exitAt (seq : ℕ) (price : Decimal) : PlaceSignal where
  strategyId := ⟨"closer", by decide⟩
  symbol := "ETH"
  seq := seq
  side := .sell
  quantity := 5
  orderType := .limit
  timeInForce := .gtc
  price := some price
  reduceOnly := true

def ethAt (price : Decimal) (nowNs : Nanos) : DeskLabel :=
  .tick { symbol := "ETH", price := price } immediateFillModel nowNs

/-- Long five, with both exits resting above the market. -/
def bothRest : List DeskLabel :=
  [ethAt 2 1, .place entersLong 5 none none immediateFillModel 2, .dispatch 3,
    .place (exitAt 2 3) 5 (some 3) none immediateFillModel 4, .dispatch 5,
    .place (exitAt 3 4) 5 (some 4) none immediateFillModel 6, .dispatch 7]

/-- `Fitting`, for what the runs here do. -/
def restartsFit (before : Desk) : DeskLabel → Bool
  | .restart nowNs =>
      (PaperExchange.restingOrders before.sagas.values).all fun saga =>
        match placeOrderOf saga with
        | .error _ => true
        | .ok request =>
            !request.reduceOnly ||
              ({} : PaperExchange).reduces (before.reads nowNs) request
  | _ => true

theorem stillReduces_of_fit {before : Desk} {nowNs : Nanos}
    (fit : restartsFit before (.restart nowNs) = true) : StillReduces before nowNs := by
  intro saga member request built reduceOnly
  have here := List.all_eq_true.mp fit saga member
  simpa [built, reduceOnly] using here

/-- The steps of a run and one more, with what the last one filled. -/
theorem run_fills (labels : List DeskLabel) (label : DeskLabel) (sizes : List Decimal)
    (evaluates : (((deskMachine exits).run {} labels).bind fun before =>
      ((deskMachine exits).step before label).map fun after =>
        (before.filled after).map FillReport.quantity) = some sizes) :
    ∃ before after, (deskMachine exits).run {} labels = some before ∧
      (deskMachine exits).step before label = some after ∧
      (before.filled after).map FillReport.quantity = sizes := by
  obtain ⟨before, ran, there⟩ := Option.bind_eq_some_iff.mp evaluates
  obtain ⟨after, stepped, filled⟩ := Option.map_eq_some_iff.mp there
  exact ⟨before, after, ran, stepped, filled⟩

/-- Restarted with the position open, the first exit closes it. -/
theorem exit_shrinks : ∃ before after,
    (deskMachine exits).run {} (bothRest ++ [.restart 8]) = some before ∧
    (deskMachine exits).step before (ethAt 3 9) = some after ∧
    (before.filled after).map FillReport.quantity = [5] ∧
    ShrinksNet after.sagas (before.venue.net (before.reads 0)) (before.filled after) := by
  have fits : (deskMachine exits).Meets Fitting {} (bothRest ++ [.restart 8] ++ [ethAt 3 9]) := by
    refine Machine.meets_of_checks_mem (fun before label member fit => ?_)
      (by decide +kernel : (deskMachine exits).checks restartsFit {}
        (bothRest ++ [.restart 8] ++ [ethAt 3 9]) = true)
    simp only [bothRest, ethAt, List.cons_append, List.nil_append, List.mem_cons,
      List.not_mem_nil, or_false] at member
    rcases member with rfl | rfl | rfl | rfl | rfl | rfl | rfl | rfl | rfl
    all_goals first
      | exact stillReduces_of_fit fit
      | exact immediate_fills
      | trivial
  have opens : Desk.Opens {} := ⟨rfl, rfl, rfl, fun _ _ held => (by cases held),
    fun _ _ held => (by cases held)⟩
  obtain ⟨before, after, ran, stepped, filled⟩ := run_fills (bothRest ++ [.restart 8])
    (ethAt 3 9) [5] (by decide +kernel)
  exact ⟨before, after, ran, stepped, filled, reduceOnly_shrinks opens fits ran stepped⟩

/-- **Restarted with the position closed, the second exit fills at size zero**: the first
one's fill was dispatched, the cancel of the second was not. -/
theorem fills_nothing : ∃ before after,
    (deskMachine exits).run {} (bothRest ++ [ethAt 3 8, .dispatch 9, .restart 10]) = some before ∧
    (deskMachine exits).step before (ethAt 4 11) = some after ∧
    ¬ ShrinksNet after.sagas (before.venue.net (before.reads 0)) (before.filled after) := by
  obtain ⟨before, after, ran, stepped, filled⟩ :=
    run_fills (bothRest ++ [ethAt 3 8, .dispatch 9, .restart 10]) (ethAt 4 11)
      [0] (by decide +kernel)
  refine ⟨before, after, ran, stepped, fun shrinks => ?_⟩
  cases fills : before.filled after with
  | nil => rw [fills] at filled; cases filled
  | cons fill rest =>
      rw [fills, List.map_cons, List.cons.injEq] at filled
      rw [fills] at shrinks
      obtain ⟨_, _, positive, _⟩ := shrinks.1
      rw [filled.1] at positive
      exact lt_irrefl _ positive

end Sample

end Tickwright.Paper
