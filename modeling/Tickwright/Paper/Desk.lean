/-
# Paper.Desk -- the paper venue beside the engine that trades on it

One process: the venue, the sagas with the account net their booked fills make,
the bus, and the readings the reconciler's passes hold.  The bus is one queue of
published reports.  An operation publishes behind it, and a dispatched report
reaches the venue's own handler and then the saga, as `absorb` has it.

A pass reads the venue once and publishes from that reading later, so a reading
stays usable from the moment it was taken; what a pass may publish from it is
`concluded`.  A restart keeps the sagas and the net, and rebuilds the venue's book
from the order rows.
-/
import Tickwright.Paper.Moves
import Tickwright.Paper.Tally
import Tickwright.Engine.Reconcile
import Tickwright.Engine.Execution
import Tickwright.Theory.Machine

namespace Tickwright.Paper

open Tickwright.Domain Tickwright.Theory Tickwright.Engine

set_option autoImplicit false

/-! ## What a pass publishes from a reading -/

/-- The points at which a pass publishes. -/
inductive Conclusion
  /-- `_adopt` opening: a verdict, or a `PENDING` saga's bridge. -/
  | opens
  /-- `_resolve_inflight` opening, at this run of misses. -/
  | inflight (absence : Reconciler.Absence)
  /-- One fill of the reading replayed. -/
  | replays (fill : FillReport)
  /-- `_adopt` closing: the record's status, or a ghost's terminal. -/
  | closes (lastEventNs : Option Nanos) (absence : Reconciler.Absence)

/-- How an opening is published. -/
def Opening.reports : Reconciler.Opening → List ExecutionReport
  | .failed report => [.status report]
  | .replay bridge => (bridge.map ExecutionReport.status).toList

/-- What a pass over `order` publishes from `view` at one of its points. -/
def concluded (config : ReconcileConfig) (order : Order) (view : VenueOrderView) (nowNs : Nanos) :
    Conclusion → List ExecutionReport
  | .opens => Opening.reports (Reconciler.opening order view nowNs)
  | .inflight absence =>
      ((Reconciler.inflightOpening config order view absence nowNs).1.map Opening.reports).getD []
  | .replays fill => if fill ∈ view.fills then [Reconciler.replica fill] else []
  | .closes lastEventNs absence =>
      ((Reconciler.closing config order view lastEventNs absence nowNs).1.map
        ExecutionReport.status).toList

/-! ## The machine -/

/-- The venue, the engine's half of every order, the bus, and the readings held. -/
structure Desk where
  venue : PaperExchange := {}
  sagas : Dict Cloid Order := Dict.empty
  accountNet : Symbol → Decimal := fun _ => 0
  pending : List ExecutionReport := []
  readings : List (Cloid × VenueOrderView) := []

/-- What can happen at the desk. -/
inductive DeskLabel
  /-- A signal the guard let through, at the guard's quantity and price. -/
  | place (signal : PlaceSignal) (quantity : Decimal) (price : Option Decimal)
      (basis : Option Basis) (model : FillModel) (nowNs : Nanos)
  | cancel (refs : List CancelRef) (nowNs : Nanos)
  | tick (tick : MarketTick) (model : FillModel) (nowNs : Nanos)
  /-- The report at the front of the bus is handled. -/
  | dispatch (nowNs : Nanos)
  /-- The bus delivers a fill of an earlier run again. -/
  | redeliver (report : FillReport) (nowNs : Nanos)
  /-- A pass reads the venue. -/
  | read (cloid : Cloid)
  /-- A pass publishes from a reading it holds. -/
  | conclude (cloid : Cloid) (view : VenueOrderView) (conclusion : Conclusion) (nowNs : Nanos)
  /-- The process ends, and a new one starts over the same rows. -/
  | restart (nowNs : Nanos)

/-- Everything a desk is configured with. -/
structure DeskConfig where
  deriveCloid : SignalId → Cloid
  paper : PaperConfig := {}
  reconcile : ReconcileConfig

namespace Desk

/-- What an operation of the venue reads of the store. -/
def reads (desk : Desk) (nowNs : Nanos) : Reads where
  accountNet := desk.accountNet
  appliedFills cloid := ((desk.sagas.get cloid).map Order.appliedEventIds).getD ∅
  nowNs := nowNs

/-- The desk while an operation of the venue is under way. -/
def during (desk : Desk) (turn : Turn) : Desk :=
  { desk with venue := turn.venue, pending := desk.pending ++ turn.published }

/-- Move one saga and the net with it. -/
def book (desk : Desk) (cloid : Cloid) (before after : Order) : Desk :=
  { desk with
    sagas := desk.sagas.set cloid after
    accountNet := fun symbol =>
      if symbol = before.symbol then
        desk.accountNet symbol + before.side.sign * (after.cumQty - before.cumQty)
      else desk.accountNet symbol }

/-- Handle one report: the venue's own handler first, then the saga. -/
def handle (desk : Desk) (report : ExecutionReport) (nowNs : Nanos) :
    Except InvariantViolation Desk :=
  let heard := match report with
    | .fill fill => desk.venue.onFillReport fill
    | .status _ | .refused _ _ => .ok desk.venue
  match heard with
  | .error violation => .error violation
  | .ok venue =>
      match desk.sagas.get (reaches report) with
      | none => .ok { desk with venue := venue }
      | some order =>
          (absorb order report nowNs).map fun after =>
            { desk with venue := venue }.book (reaches report) order after

/-- The saga a placement opens, as it is sent. -/
def opened (config : DeskConfig) (signal : PlaceSignal) (quantity : Decimal)
    (price : Option Decimal) (basis : Option Basis) (nowNs : Nanos) : Order :=
  submit (approvedOrder (config.deriveCloid signal.signalId) signal quantity price basis nowNs)
    nowNs

end Desk

/-- The desk machine.  A step is not enabled where the code raises, nor for a
placement the guard lets no one make. -/
def deskMachine (config : DeskConfig) : Machine Desk DeskLabel where
  step desk label :=
    match label with
    | .place signal quantity price basis model nowNs =>
        let cloid := config.deriveCloid signal.signalId
        let order := Desk.opened config signal quantity price basis nowNs
        if quantity ≤ 0 then none
        else
          match desk.sagas.get cloid with
          | some _ => some desk
          | none =>
              (placeOrderOf order).toOption.bind fun request =>
                (Turn.place config.paper model { venue := desk.venue } (desk.reads nowNs)
                  request).toOption.map fun turn =>
                    { desk with sagas := desk.sagas.set cloid order }.during turn
    | .cancel refs nowNs =>
        some (desk.during (Turn.cancel { venue := desk.venue } (desk.reads nowNs) refs))
    | .tick tick model nowNs =>
        (desk.venue.onTick config.paper model (desk.reads nowNs) tick).toOption.map desk.during
    | .dispatch nowNs =>
        match desk.pending with
        | [] => none
        | report :: rest => (Desk.handle { desk with pending := rest } report nowNs).toOption
    | .redeliver report nowNs => (desk.handle (.fill report) nowNs).toOption
    | .read cloid =>
        if (desk.sagas.get cloid).isSome then
          some { desk with readings := desk.readings ++ [(cloid, desk.venue.fetchOrder cloid)] }
        else none
    | .conclude cloid view conclusion nowNs =>
        if (cloid, view) ∈ desk.readings then
          (desk.sagas.get cloid).map fun order =>
            { desk with
              pending := desk.pending ++
                concluded config.reconcile order view nowNs conclusion }
        else none
    | .restart nowNs =>
        (PaperExchange.start (desk.reads nowNs) {} desk.sagas.values).toOption.map fun venue =>
          { desk with venue := venue, pending := [], readings := [] }

end Tickwright.Paper
