/-
# Engine.Execution -- the saga's handlers, as scripts of effects

Each handler of the `ExecutionManager` reads memory (and, where a ledger verb
does, the store) once, on arrival, and is then a fixed list of effects: reports
are dispatched one at a time, so nothing moves between its steps.  A crash
between any two steps is a prefix of that list.

The three orderings the source argues for are visible in the lists: a placement
writes `PENDING` before it sends and `SUBMITTED` only once the send returns
(`placeOrder`, `afterSend`), a
venue status is durable before it is announced (`commitStatus`), and a cancel's
marker is durable before the cancel goes out (`onCancel`).
-/
import Tickwright.Engine.Checkpoint

namespace Tickwright.Engine

open Tickwright.Domain Tickwright.Theory Tickwright.Store

set_option autoImplicit false

/-! ## A process and its effects -/

/-- One life of the engine beside what it shares with the outside: the durable
store, and what it has sent and announced. -/
structure Process where
  memory : Memory
  store : Store
  placed : List PlaceOrder := []
  cancelled : List (List CancelRef) := []
  announced : List OrderEvent := []

/-- Perform one step of a handler. -/
def perform (process : Process) : Effect → Process
  | .memory memory => { process with memory := memory }
  | .write txn => { process with store := process.store.commit txn }
  | .announce event => { process with announced := process.announced ++ [event] }
  | .place request => { process with placed := process.placed ++ [request] }
  | .cancel refs => { process with cancelled := process.cancelled ++ [refs] }

/-! ## Canonical events -/

/-- One saga transition's event: a fresher oid wins, else the saga's own is kept. -/
def sagaEvent (order : Order) (family : OrderEventFamily) (nowNs : Nanos)
    (venueOid : Option String) (reconciliation : Bool) : OrderEvent where
  tsEvent := nowNs
  tsInit := nowNs
  cloid := order.cloid
  strategyId := order.strategyId
  signalId := order.signalId
  symbol := order.symbol
  venueOid := venueOid.or order.venueOid
  reconciliation := reconciliation
  family := family

/-- The transition a raw status maps to, or `none` for a status that maps to no
saga move. -/
def statusEvent (order : Order) (report : OrderStatusReport) (nowNs : Nanos) :
    Option OrderEvent :=
  let event := fun family =>
    some (sagaEvent order family nowNs report.venueOid report.reconciliation)
  -- `report.reason or default_reason`: an empty reason takes the default too.
  let reason := fun default => match report.reason with
    | none | some "" => default
    | some text => text
  match report.status with
  | .submitted => event .submitted
  | .live => event .live
  | .cancelled => event .cancelled
  | .rejected => event (.rejected (reason "venue rejected"))
  | .failed => event (.failed (reason "proven never landed"))
  | .pending | .partiallyFilled | .filled | .denied => none

/-! ## Placing -/

/-- What the pre-trade guard answers. -/
inductive GuardDecision
  | approved (quantity : Decimal) (price : Option Decimal)
  | denied (reason : String)
deriving DecidableEq

/-- The manager's two run-wide gates. -/
structure Gates where
  barrierCleared : Bool := true
  exitRun : Bool := false

/-- Every partition that holds size on `symbol`, by stored owner, sorted. -/
def splitBasisOf (portfolio : Portfolio) (symbol : Symbol) : Basis :=
  let sizes := ((portfolio.across symbol).filter fun position => !position.isFlat).map
    fun position => (Owner.stored position.owner, position.signedSize)
  sizes.insertionSort fun a b => a.1 ≤ b.1

/-- The gates in front of the guard, then the guard's own verdict. -/
def gatedDecision (gates : Gates) (signal : PlaceSignal) (verdict : GuardDecision) :
    GuardDecision :=
  if !gates.barrierCleared then
    .denied "the startup barrier has not cleared"
  else if signal.strategyId = operator ∧ signal.isFlatten = false then
    .denied "an operator order must be reduce-only"
  else if gates.exitRun = true ∧ signal.strategyId ≠ operator then
    .denied "an exit run places no strategy order"
  else
    verdict

/-- The decision beside the split basis a flatten order will carry. -/
def placeDecision (gates : Gates) (portfolio : Portfolio) (signal : PlaceSignal)
    (verdict : GuardDecision) : GuardDecision × Option Basis :=
  match gatedDecision gates signal verdict with
  | .denied reason => (.denied reason, none)
  | .approved quantity price =>
      if signal.isFlatten then
        let basis := splitBasisOf portfolio signal.symbol
        match splitRefusal basis signal.side quantity with
        | some reason => (.denied reason, some basis)
        | none => (.approved quantity price, some basis)
      else
        (.approved quantity price, none)

/-- The saga record a signal opens at a given quantity. -/
def orderFor (cloid : Cloid) (signal : PlaceSignal) (quantity : Decimal) (nowNs : Nanos) :
    Order where
  cloid := cloid
  strategyId := signal.strategyId
  signalId := signal.signalId
  symbol := signal.symbol
  side := signal.side
  quantity := quantity
  orderType := signal.orderType
  createdTsNs := some nowNs
  timeInForce := some signal.timeInForce
  postOnly := signal.postOnly
  reduceOnly := signal.reduceOnly

/-- A denial: one durable terminal that was never sent. -/
def denyOrder (memory : Memory) (order : Order) (reason : String) (nowNs : Nanos) : List Effect :=
  let denied := sagaEvent order (.denied reason) nowNs none false
  let order := order.enter denied
  checkpoint memory order nowNs ++ [.announce denied]

/-- The saga a placement opens: the guard's quantity and price, not the intent's. -/
def approvedOrder (cloid : Cloid) (signal : PlaceSignal) (quantity : Decimal)
    (price : Option Decimal) (basis : Option Basis) (nowNs : Nanos) : Order :=
  { orderFor cloid signal quantity nowNs with splitBasis := basis, price := price }

/-- The saga as it is sent: `SUBMITTED`, its row still `PENDING`. -/
def submit (order : Order) (nowNs : Nanos) : Order :=
  order.enter (sagaEvent order .submitted nowNs none false)

/-- A placement up to its send: the intent is durable before it. -/
def placeOrder (memory : Memory) (order : Order) (nowNs : Nanos) : Script :=
  let pending := memory.project order nowNs
  let sent := submit order nowNs
  let opening : List Effect :=
    checkpoint memory order nowNs ++
      [.announce (sagaEvent order .placed nowNs none false),
        .memory (pending.remember sent),
        .announce (sagaEvent order .submitted nowNs none false)]
  match placeOrderOf sent with
  | .error violation => { effects := opening, fault := some (.invariant violation) }
  | .ok request => { effects := opening ++ [.place request], awaiting := some order.cloid }

/-- The tail of a placement, once the send returns: `SUBMITTED` is durable only
now.  The saga is read again, since a verb off the bus may have marked it
meanwhile. -/
def afterSend (memory : Memory) (cloid : Cloid) (nowNs : Nanos) : Script :=
  match memory.cache.getOrder cloid with
  | none => Script.skip
  | some order => { effects := checkpoint memory order nowNs }

/-- `_place`. -/
def onPlace (deriveCloid : SignalId → Cloid) (gates : Gates) (memory : Memory)
    (signal : PlaceSignal) (verdict : GuardDecision) (nowNs : Nanos) : Script :=
  let cloid := deriveCloid signal.signalId
  match memory.cache.getOrder cloid with
  | some _ => Script.skip
  | none =>
      match placeDecision gates memory.portfolio signal verdict with
      | (.denied reason, _) =>
          { effects :=
              denyOrder memory (orderFor cloid signal signal.quantity nowNs) reason nowNs }
      | (.approved quantity price, basis) =>
          placeOrder memory (approvedOrder cloid signal quantity price basis nowNs) nowNs

/-! ## Cancelling -/

/-- `_cancel`: the marker is durable before the send. -/
def onCancel (deriveCloid : SignalId → Cloid) (memory : Memory) (signal : CancelSignal)
    (nowNs : Nanos) : Script :=
  match memory.cache.getOrder (deriveCloid signal.targetSignalId) with
  | none => Script.skip
  | some order =>
      match order.requestCancel signal.signalId nowNs with
      | none => Script.skip
      | some marked =>
          { effects :=
              .memory (memory.remember marked) ::
                checkpoint (memory.remember marked) marked nowNs ++
                [.cancel [.ours (OrderRef.of marked)]] }

/-- Checkpoint each marked saga in turn. -/
def checkpointEach (memory : Memory) (nowNs : Nanos) : List Order → List Effect
  | [] => []
  | order :: rest =>
      checkpoint memory order nowNs ++ checkpointEach (memory.project order nowNs) nowNs rest

/-- `_cancel_all`: the seq first, every marker next, one send last. -/
def onCancelAll (memory : Memory) (signal : CancelAllSignal) (nowNs : Nanos) : Script :=
  let raised : Memory :=
    { memory with cache := memory.cache.raiseSeq signal.strategyId signal.seq }
  let marked := (raised.cache.openOrders (some signal.strategyId) (some signal.symbol)).filterMap
    fun order => order.requestCancelAll signal.signalId nowNs
  let marking : Memory :=
    { raised with cache := marked.foldl Cache.remember raised.cache }
  { effects :=
      raiseSeq memory signal.strategyId signal.seq ++
        [.memory marking] ++ checkpointEach marking nowNs marked ++
        (if marked.isEmpty then []
         else [.cancel (marked.map fun order => .ours (OrderRef.of order))]) }

/-- One order the operator's cancel all names. -/
inductive Resting
  | ours (cloid : Cloid) (symbol : Symbol) (venueOid : Option String)
  | external (symbol : Symbol) (venueOid : String)
deriving DecidableEq

/-- Mark each named saga, durable before the one send. -/
def operatorMarks (memory : Memory) (nowNs : Nanos) :
    List Resting → List Effect × List CancelRef
  | [] => ([], [])
  | .external symbol venueOid :: rest =>
      let (effects, refs) := operatorMarks memory nowNs rest
      (effects, .external symbol venueOid :: refs)
  | .ours cloid symbol venueOid :: rest =>
      match memory.cache.getOrder cloid with
      | none =>
          let (effects, refs) := operatorMarks memory nowNs rest
          (effects, .ours { cloid := cloid, symbol := symbol, venueOid := venueOid } :: refs)
      | some order =>
          let marked := order.markOperatorCancel nowNs
          let remembered := memory.remember marked
          let (effects, refs) := operatorMarks (remembered.project marked nowNs) nowNs rest
          (.memory remembered :: checkpoint remembered marked nowNs ++ effects,
            .ours (OrderRef.of marked) :: refs)

/-- `cancel_for_operator`. -/
def cancelForOperator (memory : Memory) (resting : List Resting) (nowNs : Nanos) : Script :=
  let (effects, refs) := operatorMarks memory nowNs resting
  { effects := effects ++ [.cancel refs] }

/-! ## Venue facts -/

/-- Record the advanced saga, then announce it. -/
def commitStatus (memory : Memory) (order : Order) (event : OrderEvent) (nowNs : Nanos) :
    List Effect :=
  [.memory (memory.remember order)] ++ checkpoint (memory.remember order) order nowNs ++
    [.announce event]

/-- `_apply_status`. -/
def onStatus (memory : Memory) (report : OrderStatusReport) (nowNs : Nanos) : Script :=
  match memory.cache.getOrder report.cloid with
  | none => Script.skip
  | some order =>
      if order.isTerminal then Script.skip
      else
        match statusEvent order report nowNs with
        | none => Script.skip
        | some event =>
            match order.apply event with
            | .error violation => Script.fail (.invariant violation)
            | .ok none => Script.skip
            | .ok (some advanced) => { effects := commitStatus memory advanced event nowNs }

/-- `_apply_fill`. -/
def onFill (config : Config) (memory : Memory) (store : Store) (report : FillReport)
    (nowNs : Nanos) : Script :=
  match memory.cache.getOrder report.cloid with
  | none => Script.skip
  | some order =>
      match order.recordFill report.tradeId report.quantity report.price report.fee
          report.tsEvent nowNs report.reconciliation with
      | .error violation => Script.fail (.invariant violation)
      | .ok none => Script.skip
      | .ok (some (advanced, event)) =>
          let remembered := memory.remember advanced
          match checkpointFill config remembered store advanced report.tradeId report.quantity
              report.price advanced.cumQty report.fee nowNs with
          | .error fault => { effects := [.memory remembered], fault := some fault }
          | .ok effects => { effects := .memory remembered :: effects ++ [.announce event] }

/-- `on_execution_report`. -/
def onExecutionReport (config : Config) (memory : Memory) (store : Store)
    (report : ExecutionReport) (nowNs : Nanos) : Script :=
  match report with
  | .status report => onStatus memory report nowNs
  | .fill report => onFill config memory store report nowNs
  | .refused _ _ => Script.skip

/-! ## What a status can do to a saga -/

/-- A status maps to a transition into the state it reports, or to none. -/
theorem statusEvent_eq_some {order : Order} {report : OrderStatusReport} {nowNs : Nanos}
    {event : OrderEvent} (mapped : statusEvent order report nowNs = some event) :
    event.eventId = .state order.cloid report.status ∧ event.state = report.status ∧
      event.venueOid = report.venueOid.or order.venueOid ∧
      (order.enter event).cumQty = order.cumQty := by
  simp only [statusEvent] at mapped
  cases status : report.status <;> rw [status] at mapped <;>
    first
    | (cases mapped; exact ⟨rfl, rfl, rfl, rfl⟩)
    | cases mapped

end Tickwright.Engine
