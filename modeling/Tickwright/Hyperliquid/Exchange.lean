/-
# Hyperliquid.Exchange -- one order between the engine and the venue

A `Track` is everything that can touch one order: its durable row and cached
saga, the order as the venue holds it, the placement and cancel calls that are
out, what each reconcile cycle is doing with it, and the bus.  Every await of
the adapter and of the reconciler is a step of its own, so anything may happen
between a request and its answer and between two publishes of one pass.

* the placement call publishes an ack before it reads fills, and ends a shrunk
  order only once the read holds every fill the venue reported (`placementStep`);
* a cancel answered success is published at once, with no fills read
  (`cancelStep`);
* `fetch_order` reads the record, by the oid when the saga has one, then the
  fills (`Look`, `foundView`);
* a process dies between any two steps; the request on the wire does not.

`desk` runs any number of orders side by side.
-/
import Tickwright.Hyperliquid.Venue
import Tickwright.Engine.Reconcile

namespace Tickwright.Hyperliquid

open Tickwright.Domain Tickwright.Engine Tickwright.Theory

set_option autoImplicit false

/-! ## The adapter's pure parts -/

structure Config where
  reconcile : ReconcileConfig
  shrinkWaitNs : Nanos
  deriveCloid : SignalId → Cloid

/-- The venue's decoded `orderStatus` record. -/
structure OrderRecord where
  coin : Symbol
  oid : String
  timestamp : ℤ
  state : OrderState
  reduceOnly : Bool
deriving DecidableEq

def ackSkewAllowanceMs : ℤ := 60000

/-- `_placed_before`: the record is of an order placed before this saga was
created.  A saga with no stamp keeps the record. -/
def placedBefore (timestampMs : ℤ) (createdTsNs : Option Nanos) : Bool :=
  createdTsNs.any fun created => timestampMs < created / 1000000 - ackSkewAllowanceMs

/-- `_shrunk`. -/
def shrunk (reduceOnly : Bool) (asked filled : Decimal) : Bool :=
  reduceOnly && decide (filled < asked)

/-- The venue's status in saga vocabulary; `none` before it knows the order. -/
def Stage.state : Stage → Option OrderState
  | .onWire => none
  | .refused => some .rejected
  | .resting => some .live
  | .filled => some .filled
  | .cancelled => some .cancelled

/-- What `orderStatus` answers: the record, or `NO_RECORD`. -/
def VenueOrder.record (order : VenueOrder) : Option OrderRecord :=
  if order.listed then
    order.stage.state.map fun state =>
      { coin := order.coin
        oid := order.oid
        timestamp := order.timestampMs
        state := state
        reduceOnly := order.reduceOnly }
  else
    none

/-- `_status_report`. -/
def statusReport (cloid : Cloid) (symbol : Symbol) (status : OrderState)
    (venueOid reason : Option String) (nowNs : Nanos) : OrderStatusReport where
  cloid := cloid
  symbol := symbol
  status := status
  venueOid := venueOid
  reason := reason
  tsEvent := nowNs

/-- `_end_shrunk`. -/
def endShrunk (cloid : Cloid) (symbol : Symbol) (venueOid : Option String) (nowNs : Nanos) :
    OrderStatusReport :=
  statusReport cloid symbol .cancelled venueOid (some "reduce-only shrink") nowNs

/-- `_fills_settled`: whether the same total has held for the whole wait, and the
wait left behind. -/
def fillsSettled (shrinkWaitNs : Nanos) (seen : Option (Decimal × Nanos)) (total : Decimal)
    (nowNs : Nanos) : Bool × Option (Decimal × Nanos) :=
  match seen with
  | some (held, since) =>
      if held = total then
        if shrinkWaitNs ≤ nowNs - since then (true, none) else (false, some (held, since))
      else (false, some (total, nowNs))
  | none => (false, some (total, nowNs))

/-- `fetch_order` once it holds a record of ours and that order's fills.  `seen` is the wait
it took out, `current` the one another cycle has put back since. -/
def foundView (config : Config) (ref : OrderRef) (record : OrderRecord)
    (seen current : Option (Decimal × Nanos)) (fills : List FillReport) (nowNs : Nanos) :
    VenueOrderView × Option (Decimal × Nanos) :=
  let plain : VenueOrderView :=
    { status := some
        (statusReport ref.cloid record.coin record.state (some record.oid) none nowNs)
      fills := fills }
  if record.state = .filled ∧ (ref.quantity.any fun asked =>
      shrunk record.reduceOnly asked (fillTotal fills)) then
    match fillsSettled config.shrinkWaitNs seen (fillTotal fills) nowNs with
    | (true, wait) =>
        ({ status := some (endShrunk ref.cloid record.coin (some record.oid) nowNs)
           fills := fills }, wait)
    | (false, wait) => (plain, wait)
  else
    (plain, current)

/-! ## One order's track -/

/-- Where a placement call is. -/
inductive Placement
  /-- The action is sent and its answer is not back. -/
  | out
  /-- Answered `filled`: the fills reads of `_publish_placement_fills`. -/
  | filling (oid : String) (totalSz : Decimal) (published : List FillReport) (retries : ℕ)
  /-- The call returned, or belonged to an earlier process. -/
  | back

/-- `_CancelVerdict`. -/
inductive CancelVerdict
  | cancelled
  | alreadyGone
deriving DecidableEq

inductive Cycle
  | startup
  | inflight
  | openOrders
deriving DecidableEq, Repr

/-- The saga states each cycle looks at; a startup pass takes all of them. -/
def Cycle.watches : Cycle → OrderState → Bool
  | startup, _ => true
  | inflight, state => state == .submitted
  | openOrders, state => state.isWorking

/-- What one cycle is doing with the order. -/
inductive Look
  | idle
  /-- The `orderStatus` read is out. -/
  | asked (ref : OrderRef)
  /-- The record is back and the fills read is out. -/
  | found (ref : OrderRef) (record : OrderRecord) (seen : Option (Decimal × Nanos))
  /-- There is no record, and the fills read by the known oid is out. -/
  | gone (ref : OrderRef)
  /-- `fetch_order` returned. -/
  | holding (ref : OrderRef) (view : VenueOrderView)
  /-- The replay is under way, `rest` not yet published. -/
  | replaying (ref : OrderRef) (view : VenueOrderView) (rest : List FillReport)

structure Track where
  row : Order
  saga : Order
  lastEventNs : Option Nanos := none
  venue : VenueOrder
  placement : Placement := .out
  cancelsOut : ℕ := 0
  verdicts : List CancelVerdict := []
  shrunkFills : Option (Decimal × Nanos) := none
  absence : Reconciler.Absence := {}
  /-- The startup barrier cleared in this process. -/
  cleared : Bool := true
  looks : Cycle → Look := fun _ => .idle
  handled : List ExecutionReport := []
  queue : List ExecutionReport := []
  fault : Option InvariantViolation := none

namespace Track

def publish (track : Track) (reports : List ExecutionReport) : Track :=
  { track with queue := track.queue ++ reports }

def setLook (track : Track) (cycle : Cycle) (look : Look) : Track :=
  { track with looks := Function.update track.looks cycle look }

/-- `place` returned: the saga as it now is becomes durable (`afterSend`). -/
def returned (track : Track) (nowNs : Nanos) : Track :=
  { track with placement := .back, row := track.saga, lastEventNs := some nowNs }

/-- A cancel verb marked the saga, made it durable and sent the cancel. -/
def marked (track : Track) (order : Order) (nowNs : Nanos) : Track :=
  { track with
    saga := order
    row := order
    lastEventNs := some nowNs
    cancelsOut := track.cancelsOut + 1 }

def status (track : Track) (state : OrderState) (venueOid reason : Option String) (nowNs : Nanos) :
    ExecutionReport :=
  .status (statusReport track.saga.cloid track.saga.symbol state venueOid reason nowNs)

/-! ## Placing -/

inductive PlacementEvent
  /-- `_MissingPrice`: nothing was sent. -/
  | noPrice
  | resting
  | filled
  | rejected (reason : String)
  /-- A dead send, an unreadable body, or a refused action: at most a refusal
  that moves no saga is published. -/
  | nothing (refused : Bool)
  | readsFills
  | failsFills
deriving DecidableEq

/-- `len(_SHORT_FILLS_RETRY_SECONDS)` -/
def shortFillsRetries : ℕ := 3

/-- One read of `_publish_placement_fills`, and the shrink that may end it. -/
def readFills (track : Track) (oid : String) (totalSz : Decimal) (published : List FillReport)
    (retries : ℕ) (nowNs : Nanos) : Track :=
  let fresh := track.venue.fills.filter fun fill =>
    fill.tradeId ∉ published.map FillReport.tradeId
  let published := published ++ fresh
  let filled := fillTotal published
  let read := track.publish (fresh.map .fill)
  if totalSz ≤ filled ∨ retries = 0 then
    if filled = totalSz ∧ shrunk track.venue.reduceOnly track.venue.asked filled then
      ({ read with shrunkFills := none }.publish
        [.status (endShrunk track.saga.cloid track.saga.symbol none nowNs)]).returned nowNs
    else
      read.returned nowNs
  else
    { read with placement := .filling oid totalSz published (retries - 1) }

def placementStep (track : Track) (event : PlacementEvent) (nowNs : Nanos) : Option Track :=
  match track.placement, event with
  | .out, .noPrice =>
      (track.venue.refuse false).map fun venue =>
        ({ track with venue := venue }.publish
          [track.status .failed none (some "no market tick cached") nowNs]).returned nowNs
  | .out, .resting =>
      if track.venue.accepted then
        some ((track.publish
          [track.status .live (some track.venue.oid) none nowNs]).returned nowNs)
      else none
  | .out, .filled =>
      if track.venue.ended then
        some { track.publish [track.status .live (some track.venue.oid) none nowNs] with
          placement := .filling track.venue.oid track.venue.total [] shortFillsRetries }
      else none
  | .out, .rejected reason =>
      if track.venue.stage = .refused then
        some ((track.publish [track.status .rejected none (some reason) nowNs]).returned nowNs)
      else none
  | .out, .nothing refused =>
      some ((track.publish
        (if refused then [.refused track.saga.cloid track.saga.symbol] else [])).returned nowNs)
  | .filling oid totalSz published retries, .readsFills =>
      some (track.readFills oid totalSz published retries nowNs)
  | .filling .., .failsFills => some (track.returned nowNs)
  | _, _ => none

/-! ## Cancelling -/

inductive CancelEvent
  | requests (signalId : SignalId)
  | requestsAll (signalId : SignalId)
  | operatorCancels
  /-- The venue adjudicates one cancel that reached it. -/
  | adjudicates
  | unsent
  | answers
  | unanswered
deriving DecidableEq

def cancelStep (track : Track) (event : CancelEvent) (nowNs : Nanos) : Option Track :=
  match event with
  | .requests signalId => (track.saga.requestCancel signalId nowNs).map (track.marked · nowNs)
  | .requestsAll signalId => (track.saga.requestCancelAll signalId nowNs).map (track.marked · nowNs)
  | .operatorCancels => some (track.marked (track.saga.markOperatorCancel nowNs) nowNs)
  | .adjudicates =>
      if track.cancelsOut = 0 then none
      else
        match track.venue.finish .cancelled with
        | some venue => some { track with
            venue := venue
            cancelsOut := track.cancelsOut - 1
            verdicts := track.verdicts ++ [.cancelled] }
        | none => some { track with
            cancelsOut := track.cancelsOut - 1
            verdicts := track.verdicts ++ [.alreadyGone] }
  | .unsent =>
      if track.cancelsOut = 0 then none else some { track with cancelsOut := track.cancelsOut - 1 }
  | .answers =>
      match track.verdicts with
      | [] => none
      -- `_apply_cancellation`: a success is published with no fills read.
      | .cancelled :: rest =>
          some ({ track with verdicts := rest }.publish [track.status .cancelled none none nowNs])
      | .alreadyGone :: rest => some { track with verdicts := rest }
  | .unanswered =>
      match track.verdicts with
      | [] => none
      | _ :: rest => some { track with verdicts := rest }

/-! ## Reconciling -/

inductive LookEvent
  | asks
  | recordReturns
  | fillsReturn
  | fails
  | opens
  | replays
  | closes
deriving DecidableEq

/-- How `cycle` opens on the view in hand. -/
def opensWith (config : Config) (track : Track) (cycle : Cycle) (view : VenueOrderView)
    (nowNs : Nanos) : Option Reconciler.Opening × Reconciler.Absence :=
  match cycle with
  | .inflight =>
      let (opening, absence) :=
        Reconciler.inflightOpening config.reconcile track.saga view track.absence nowNs
      (opening, if view.hasRecord then absence.seen view else absence)
  | .startup | .openOrders =>
      (some (Reconciler.opening track.saga view nowNs), track.absence.seen view)

def lookStep (config : Config) (track : Track) (cycle : Cycle) (event : LookEvent)
    (nowNs : Nanos) : Option Track :=
  match track.looks cycle, event with
  | .idle, .asks =>
      if (cycle == .startup) != track.cleared ∧ track.saga.isTerminal = false ∧
          cycle.watches track.saga.state = true then
        some (track.setLook cycle (.asked (OrderRef.of track.saga)))
      else none
  | .asked ref, .recordReturns =>
      let popped := { track with shrunkFills := none }
      match track.venue.record, ref.venueOid with
      | none, none => some (popped.setLook cycle (.holding ref { status := none }))
      | none, some _ => some (popped.setLook cycle (.gone ref))
      | some record, venueOid =>
          if venueOid = none ∧ placedBefore record.timestamp ref.createdTsNs = true then
            some (popped.setLook cycle (.holding ref { status := none }))
          else
            some (popped.setLook cycle (.found ref record track.shrunkFills))
  | .found ref record seen, .fillsReturn =>
      let (view, wait) :=
        foundView config ref record seen track.shrunkFills track.venue.fills nowNs
      some ({ track with shrunkFills := wait }.setLook cycle (.holding ref view))
  | .gone ref, .fillsReturn =>
      some (track.setLook cycle (.holding ref { status := none, fills := track.venue.fills }))
  | .asked _, .fails | .found .., .fails | .gone _, .fails => some (track.setLook cycle .idle)
  | .holding ref view, .opens =>
      let (opening, absence) := track.opensWith config cycle view nowNs
      let ruled := { track with absence := absence }
      match opening with
      | none => some (ruled.setLook cycle .idle)
      | some (.failed report) => some ((ruled.publish [.status report]).setLook cycle .idle)
      | some (.replay bridge) =>
          some ((ruled.publish (bridge.toList.map .status)).setLook cycle
            (.replaying ref view view.fills))
  | .replaying ref view (fill :: rest), .replays =>
      some ((track.publish [Reconciler.replica fill]).setLook cycle (.replaying ref view rest))
  | .replaying _ view [], .closes =>
      let (report, absence) := Reconciler.closing config.reconcile track.saga view
        track.lastEventNs track.absence nowNs
      some (({ track with absence := absence }.publish
        (report.toList.map .status)).setLook cycle .idle)
  | _, _ => none

/-! ## The bus, the barrier and a crash -/

/-- Handle the report at the front.  A saga it moved is written through. -/
def dispatch (track : Track) (nowNs : Nanos) : Option Track :=
  match track.queue with
  | [] => none
  | report :: rest =>
      match absorb track.saga report nowNs with
      | .error violation => some { track with fault := some violation }
      | .ok after =>
          some { track with
            saga := after
            row := if after = track.saga then track.row else after
            lastEventNs := if after = track.saga then track.lastEventNs else some nowNs
            handled := track.handled ++ [report]
            queue := rest }

/-- The process dies and a new one recovers the row.  The in-memory bus loses
everything; a durable one redelivers from its last commit and may have lost what
was never flushed to it. -/
def crash (track : Track) (redelivered kept : ℕ) : Track :=
  { row := track.row
    saga := track.row
    venue := track.venue
    placement := .back
    cleared := false
    handled := track.handled
    queue := (track.handled.drop (track.handled.length - redelivered) ++ track.queue).take kept }

inductive Step
  | venue (event : VenueOrder.VenueEvent)
  | placement (event : PlacementEvent) (nowNs : Nanos)
  | cancel (event : CancelEvent) (nowNs : Nanos)
  | look (cycle : Cycle) (event : LookEvent) (nowNs : Nanos)
  /-- The startup barrier clears. -/
  | clears
  | dispatches (nowNs : Nanos)
  | crashes (redelivered kept : ℕ)

/-- What the venue may do to this order: its stamp is no older than the saga by
more than the skew allowance. -/
def venueStep (track : Track) (event : VenueOrder.VenueEvent) : Option Track :=
  match event with
  | .accepts _ timestampMs =>
      if placedBefore timestampMs track.saga.createdTsNs then none
      else (track.venue.happens event).map fun venue => { track with venue := venue }
  | _ => (track.venue.happens event).map fun venue => { track with venue := venue }

def step (config : Config) (track : Track) : Step → Option Track
  | .crashes redelivered kept => some (track.crash redelivered kept)
  | event =>
      if track.fault.isSome then none
      else
        match event with
        | .venue event => track.venueStep event
        | .placement event nowNs => track.placementStep event nowNs
        | .cancel event nowNs => track.cancelStep event nowNs
        | .look cycle event nowNs => track.lookStep config cycle event nowNs
        | .clears =>
            match track.cleared, track.looks .startup with
            | false, .idle => some { track with cleared := true }
            | _, _ => none
        | .dispatches nowNs => track.dispatch nowNs
        | .crashes _ _ => none

/-- The track a placement opens, as its request goes out: the row is `PENDING`
and the cached saga `SUBMITTED` (`placeOrder`). -/
def opened (order : Order) (positive : 0 < order.quantity) (nowNs : Nanos) : Track where
  row := order
  saga := submit order nowNs
  lastEventNs := some nowNs
  venue := VenueOrder.sent order.symbol order.quantity order.reduceOnly positive

end Track

/-! ## Any number of orders -/

inductive Label
  | place (signal : PlaceSignal) (quantity : Decimal) (price : Option Decimal)
      (basis : Option Basis) (nowNs : Nanos)
  | on (cloid : Cloid) (step : Track.Step)

/-- Every order the process and its earlier lives placed. -/
abbrev Desk := Cloid → Option Track

def Desk.put (desk : Desk) (cloid : Cloid) (track : Track) : Desk :=
  fun c => if c = cloid then some track else desk c

/-- One approved placement opens a track; every other step is on one order. -/
def desk (config : Config) : Machine Desk Label where
  step desk
    | .place signal quantity price basis nowNs =>
        let cloid := config.deriveCloid signal.signalId
        if positive : 0 < quantity then
          match desk cloid with
          | some _ => none
          | none => some (desk.put cloid
              (Track.opened (approvedOrder cloid signal quantity price basis nowNs) positive nowNs))
        else none
    | .on cloid step =>
        match desk cloid with
        | none => none
        | some track => (track.step config step).map (desk.put cloid)

/-- What opening a track establishes and every step of one keeps holds of every
track of every run. -/
theorem desk_induct {config : Config} (ok : Track → Track.Step → Prop) {I : Track → Prop}
    (opens : ∀ cloid signal quantity price basis nowNs (positive : 0 < quantity),
      I (Track.opened (approvedOrder cloid signal quantity price basis nowNs) positive nowNs))
    (keeps : ∀ {track after step}, I track → ok track step →
      track.step config step = some after → I after)
    {start final : Desk} {labels : List Label}
    (initial : ∀ cloid track, start cloid = some track → I track)
    (meets : (desk config).Meets (fun desk label => ∀ cloid step track,
      label = .on cloid step → desk cloid = some track → ok track step) start labels)
    (ran : (desk config).run start labels = some final) :
    ∀ cloid track, final cloid = some track → I track := by
  refine Machine.run_induct_of _ (fun desk => ∀ cloid track, desk cloid = some track → I track)
    ?_ initial meets ran
  intro before label after holds condition enabled cloid track there
  cases label with
  | place signal quantity price basis nowNs =>
      simp only [desk] at enabled
      split at enabled
      · rename_i positive
        split at enabled
        · cases enabled
        · cases enabled
          simp only [Desk.put] at there
          split at there
          · cases there
            exact opens _ _ _ _ _ _ positive
          · exact holds cloid track there
      · cases enabled
  | on target step =>
      simp only [desk] at enabled
      cases here : before target with
      | none => rw [here] at enabled; cases enabled
      | some old =>
          simp only [here] at enabled
          cases stepped : old.step config step with
          | none => rw [stepped] at enabled; cases enabled
          | some new =>
              rw [stepped] at enabled
              cases enabled
              simp only [Desk.put] at there
              split at there
              · cases there
                exact keeps (holds _ old here) (condition _ step old rfl here) stepped
              · exact holds cloid track there

end Tickwright.Hyperliquid
