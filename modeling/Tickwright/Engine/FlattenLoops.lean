/-
# Engine.FlattenLoops -- the flatten job, one loop a symbol

`Job` is the engine's life beside what a flatten run adds to it: the signals in
the topic that no handler has had yet, one loop for each symbol, the turn the
loops share, and the operator's emitter.

A loop's `LoopStage` is the `await` it stands at, and a move that names its symbol is
that `await` coming back with some answer, run to the next one.  Everything else
that can happen to the engine meanwhile is a move of its own: a signal of the
topic is handled or dropped, a report, a heal or a funding boundary is booked, a
send returns.  No order between moves is assumed, so what a bus adds (which
signal is next, when a drain or a publish returns) only removes runs: both buses
are covered, and so is any interleaving of the loops.

A sleep is no stage: the loop simply takes its next move later.

`own` and `moved` are kept for the statements alone: the signal ids the job has
published, and the symbols `checkpoint_leftover` has run on.
-/
import Mathlib.Logic.Function.Basic
import Tickwright.Engine.SignalIds

namespace Tickwright.Engine

open Tickwright.Domain Tickwright.Theory Tickwright.Store

set_option autoImplicit false

/-! ## A loop -/

/-- How one continuous reconcile pass ended. -/
inductive PassResult
  | proved
  | failed
  | rateLimited
deriving DecidableEq

/-- Why the venue did not take a close. -/
inductive OrderRefusal
  | rateLimitedAddress
  | rateLimitedIp
  | refused
  | sendFailed
deriving DecidableEq

/-- `_RATE_LIMITS` names it. -/
def OrderRefusal.isLimit : OrderRefusal → Bool
  | .rateLimitedAddress | .rateLimitedIp => true
  | .refused | .sendFailed => false

/-- Why an attempt closed nothing. -/
inductive DryReason
  | noPrice
  | sizeGap
  | noFill
  | refused
deriving DecidableEq

/-- Whose end a `_verdict` waits for. -/
inductive VerdictOn
  /-- `_resume_orders`: the sagas left open that are yet to be waited for, and what
  each had filled before. -/
  | resume (rest : List Cloid) (before : List (Cloid × Decimal))
  /-- `_attempt`: the close it sent, and why the venue did not take it. -/
  | close (cloid : Cloid) (refusal : Option OrderRefusal)
deriving DecidableEq

/-- The `await` a loop stands at. -/
inductive LoopStage
  /-- The loop has not started. -/
  | unstarted
  /-- `_resume_orders`: `bus.drain()`. -/
  | resuming
  /-- `_verdict`: about to ask whether the saga is decided. -/
  | deciding (verdict : VerdictOn)
  /-- `_verdict`: the pass interval, then the turn. -/
  | pacing (verdict : VerdictOn)
  /-- `run_pass`, with the turn. -/
  | passing (verdict : VerdictOn)
  /-- `_read_left`: `fetch_positions`. -/
  | reading (reason : Option DryReason)
  /-- `_attempt`: `priced.has`, after any dry wait. -/
  | pricing
  /-- `_size_gap`: `bus.drain()`. -/
  | draining
  /-- `_size_gap`: the turn, for the first or the second account pass. -/
  | accounting (second : Bool)
  /-- The account pass, with the turn. -/
  | accountPass (second : Bool)
  /-- `turns.close`: the turn. -/
  | closing
  /-- `turns.close`: the publish of the close, with the turn. -/
  | published (cloid : Cloid)
  /-- The loop returned; whether it reports that it gave up. -/
  | ended (gaveUp : Bool)
  /-- The loop raised, with the close it had published and found no saga for. -/
  | faulted (unhandled : Option Cloid)
deriving DecidableEq

/-- One symbol's loop: the last size the venue reported, its dry attempts in a
row, and where it stands. -/
structure Loop where
  size : Decimal := 0
  dry : ℕ := 0
  stage : LoopStage := .unstarted
deriving DecidableEq

def dryAttemptsToGiveUp : ℕ := 3

namespace Loop

/-- `_DryAttempts.spent`. -/
def spent (loop : Loop) : Bool := decide (loop.dry = dryAttemptsToGiveUp)

/-- `_DryAttempts.gave_up`: count one dry attempt, and go on unless it was the last. -/
def gaveUp (loop : Loop) (next : LoopStage) : Loop :=
  let counted := { loop with dry := loop.dry + 1 }
  { counted with stage := if counted.spent then .ended true else next }

/-- `_DryAttempts.read_failed`. -/
def readFailed (loop : Loop) (rateLimited : Bool) (next : LoopStage) : Loop :=
  if rateLimited then { loop with stage := next } else loop.gaveUp next

/-- What follows a read that found `size`: the next attempt, after the dry wait
where the last one closed nothing. -/
def again (loop : Loop) (size : Decimal) (reason : Option DryReason) : Loop :=
  match reason with
  | none => { loop with size := size, stage := .pricing }
  | some _ => { loop with size := size }.gaveUp .pricing

end Loop

/-! ## The job -/

/-- The manager's gates in an exit run whose barrier has cleared. -/
def exitGates : Gates := { barrierCleared := true, exitRun := true }

structure Job where
  life : Life
  topic : List Signal := []
  loops : Symbol → Loop
  turn : Option Symbol := none
  emitter : SignalEmitter
  own : List SignalId := []
  moved : List Symbol := []

/-- What reaches the engine beside the topic's signals: reports, a funding
boundary, an account pass's heal, the operator's cancel. -/
def Input.isAmbient : Input → Bool
  | .report _ | .funding _ | .heal .. | .operatorCancel _ => true
  | .place .. | .cancel _ | .cancelAll _ | .emit .. | .leftover _ => false

/-- One step of a flatten run. -/
inductive JobMove
  /-- A signal of the topic is handled.  The guard's verdict is read for a placement
  that no gate refuses. -/
  | handles (signal : Signal) (verdict : GuardDecision) (nowNs : Nanos)
  /-- A bus fault drops a signal undelivered. -/
  | drops (signal : Signal)
  | hears (input : Input) (nowNs : Nanos)
  /-- `Exchange.place` returns. -/
  | sent (nowNs : Nanos)
  /-- The run starts the symbol's loop on the size it read. -/
  | begins (symbol : Symbol) (size : Decimal)
  | drained (symbol : Symbol) (nowNs : Nanos)
  | decides (symbol : Symbol)
  | passBegins (symbol : Symbol)
  | passEnds (symbol : Symbol) (result : PassResult)
  /-- `fetch_positions` fails, for the IP limit or not. -/
  | readFails (symbol : Symbol) (rateLimited : Bool)
  | reads (symbol : Symbol) (size : Decimal) (nowNs : Nanos)
  | prices (symbol : Symbol) (seen : Bool)
  | gapDrained (symbol : Symbol)
  | accountBegins (symbol : Symbol)
  | accountEnds (symbol : Symbol)
  | closes (symbol : Symbol) (nowNs : Nanos)
  /-- The publish returns, and the refusal noted for the close is popped. -/
  | closed (symbol : Symbol) (refusal : Option OrderRefusal)
  /-- The publish raises. -/
  | closeRaises (symbol : Symbol)

namespace Job

def cache (job : Job) : Cache := job.life.process.memory.cache

/-- `_held`. -/
def held (job : Job) (symbol : Symbol) : Decimal :=
  job.life.process.memory.portfolio.accountNet symbol

/-- `_cum_qty`. -/
def cumQty (job : Job) (cloid : Cloid) : Decimal :=
  ((job.cache.getOrder cloid).map Order.cumQty).getD 0

def setLoop (job : Job) (symbol : Symbol) (loop : Loop) : Job :=
  { job with loops := Function.update job.loops symbol loop }

@[simp] theorem setLoop_life (job : Job) (symbol : Symbol) (loop : Loop) :
    (job.setLoop symbol loop).life = job.life := rfl

@[simp] theorem setLoop_cache (job : Job) (symbol : Symbol) (loop : Loop) :
    (job.setLoop symbol loop).cache = job.cache := rfl

@[simp] theorem setLoop_topic (job : Job) (symbol : Symbol) (loop : Loop) :
    (job.setLoop symbol loop).topic = job.topic := rfl

@[simp] theorem setLoop_own (job : Job) (symbol : Symbol) (loop : Loop) :
    (job.setLoop symbol loop).own = job.own := rfl

@[simp] theorem setLoop_moved (job : Job) (symbol : Symbol) (loop : Loop) :
    (job.setLoop symbol loop).moved = job.moved := rfl

@[simp] theorem setLoop_self (job : Job) (symbol : Symbol) (loop : Loop) :
    (job.setLoop symbol loop).loops symbol = loop := Function.update_self ..

theorem setLoop_ne (job : Job) {symbol other : Symbol} (ne : other ≠ symbol) (loop : Loop) :
    (job.setLoop symbol loop).loops other = job.loops other := Function.update_of_ne ne ..

/-- The loop moves to its next stage. -/
def goes (job : Job) (symbol : Symbol) (stage : LoopStage) : Job :=
  job.setLoop symbol { job.loops symbol with stage := stage }

/-- The input a signal is dispatched as. -/
def inputOf (verdict : GuardDecision) : Signal → Input
  | .place signal => .place exitGates signal verdict
  | .cancel signal => .cancel signal
  | .cancelAll signal => .cancelAll signal

/-- The close `_close` sends. -/
def closeVerb (symbol : Symbol) (size : Decimal) : EmitterVerb :=
  .place symbol (if 0 < size then .sell else .buy) |size| .market .ioc none false true

section Step

variable (deriveCloid : SignalId → Cloid) (config : Config) (accountTruth : Bool)

/-- The engine takes one step of its own. -/
def engineStep (job : Job) (label : Label) : Option Job :=
  ((engine deriveCloid config).step job.life label).map fun life => { job with life := life }

/-- `_left`: a flat venue moves the leftover and ends the loop; any other size is
the next attempt's. -/
def left (job : Job) (symbol : Symbol) (size : Decimal) (reason : Option DryReason)
    (nowNs : Nanos) : Job :=
  let loop := job.loops symbol
  if size = 0 then
    match (engine deriveCloid config).step job.life (.handle (.leftover symbol) nowNs) with
    | none => job.setLoop symbol { loop with size := size, stage := .faulted none }
    | some life =>
        { job with life := life, moved := job.moved ++ [symbol] }.setLoop symbol
          { loop with size := size, stage := .ended loop.spent }
  else
    job.setLoop symbol (loop.again size reason)

/-- `_resume_orders`, once the drain returned. -/
def resume (job : Job) (symbol : Symbol) (nowNs : Nanos) : Job :=
  match job.cache.openOrders none (some symbol) with
  | [] => job.left deriveCloid config symbol (job.loops symbol).size none nowNs
  | leftOpen =>
      job.goes symbol (.deciding (.resume (leftOpen.map Order.cloid)
        (leftOpen.map fun order => (order.cloid, order.cumQty))))

/-- `_decided`, and what follows it either way. -/
def decided (job : Job) (symbol : Symbol) : VerdictOn → Job
  | .resume [] before =>
      let loop := job.loops symbol
      let filled := before.any fun (cloid, cumQty) => decide (cumQty < job.cumQty cloid)
      job.setLoop symbol
        { loop with dry := if filled then 0 else loop.dry, stage := .reading none }
  | .resume (cloid :: rest) before =>
      match job.cache.getOrder cloid with
      | none => job.goes symbol (.faulted none)
      | some saga =>
          if saga.isTerminal then job.goes symbol (.deciding (.resume rest before))
          else job.goes symbol (.pacing (.resume (cloid :: rest) before))
  | .close cloid refusal =>
      match job.cache.getOrder cloid with
      | none => job.goes symbol (.faulted (some cloid))
      | some saga =>
          if saga.isTerminal then
            let loop := job.loops symbol
            if 0 < saga.cumQty then
              job.setLoop symbol { loop with dry := 0, stage := .reading none }
            else if refusal.any OrderRefusal.isLimit then
              job.goes symbol (.reading none)
            else
              job.goes symbol (.reading (some (if refusal.isNone then .noFill else .refused)))
          else job.goes symbol (.pacing (.close cloid refusal))

theorem decided_moved {job : Job} (symbol : Symbol) (verdict : VerdictOn) :
    (job.decided symbol verdict).moved = job.moved := by
  simp only [decided]
  repeat' split
  all_goals rfl

/-- What `_size_gap` says of the books now: no gap, or on to its next step. -/
def sizes (job : Job) (symbol : Symbol) (gap : LoopStage) : Job :=
  if job.held symbol = (job.loops symbol).size then job.goes symbol .closing
  else job.goes symbol gap

theorem sizes_moved {job : Job} (symbol : Symbol) (gap : LoopStage) :
    (job.sizes symbol gap).moved = job.moved := by
  simp only [sizes]
  split <;> rfl

/-- After an account pass: a second one, or the gap stands. -/
def accounted (job : Job) (symbol : Symbol) (second : Bool) : Job :=
  job.sizes symbol (if second then .reading (some .sizeGap) else .accounting true)

/-- `turns.close`: the seq is recorded, then the close is published. -/
def close (job : Job) (symbol : Symbol) (nowNs : Nanos) : Option Job :=
  match job.emitter.emit (closeVerb symbol (job.loops symbol).size) with
  | .error _ => none
  | .ok (signal, emitter) =>
      (job.engineStep deriveCloid config (.handle (.emit signal.strategyId signal.seq) nowNs)).map
        fun recorded =>
          { recorded with
            topic := job.topic ++ [signal], emitter := emitter, turn := some symbol
            own := job.own ++ [signal.signalId] }.goes symbol
              (.published (deriveCloid signal.signalId))

/-- One step; `none` where the move's `await` is not the one the loop stands at. -/
def step (job : Job) : JobMove → Option Job
  | .handles signal verdict nowNs =>
      if signal ∈ job.topic then
        (job.engineStep deriveCloid config (.handle (inputOf verdict signal) nowNs)).map
          fun handled => { handled with topic := job.topic.erase signal }
      else none
  | .drops signal => some { job with topic := job.topic.erase signal }
  | .hears input nowNs =>
      if input.isAmbient then job.engineStep deriveCloid config (.handle input nowNs) else none
  | .sent nowNs => job.engineStep deriveCloid config (.sent nowNs)
  | .begins symbol size =>
      if (job.loops symbol).stage = .unstarted then
        some (job.setLoop symbol { size := size, stage := .resuming })
      else none
  | .drained symbol nowNs =>
      if (job.loops symbol).stage = .resuming then
        some (job.resume deriveCloid config symbol nowNs)
      else none
  | .decides symbol =>
      match (job.loops symbol).stage with
      | .deciding verdict => some (job.decided symbol verdict)
      | _ => none
  | .passBegins symbol =>
      match (job.loops symbol).stage, job.turn with
      | .pacing verdict, none =>
          some ({ job with turn := some symbol }.goes symbol (.passing verdict))
      | _, _ => none
  | .passEnds symbol result =>
      match (job.loops symbol).stage with
      | .passing verdict =>
          let freed := { job with turn := none }
          if result = .proved then some (freed.goes symbol (.deciding verdict))
          else some (freed.setLoop symbol
            ((job.loops symbol).readFailed (decide (result = .rateLimited))
              (.deciding verdict)))
      | _ => none
  | .readFails symbol rateLimited =>
      match (job.loops symbol).stage with
      | .reading reason =>
          some (job.setLoop symbol ((job.loops symbol).readFailed rateLimited (.reading reason)))
      | _ => none
  | .reads symbol size nowNs =>
      match (job.loops symbol).stage with
      | .reading reason => some (job.left deriveCloid config symbol size reason nowNs)
      | _ => none
  | .prices symbol seen =>
      if (job.loops symbol).stage = .pricing then
        if seen then some (job.sizes symbol .draining)
        else some (job.goes symbol (.reading (some .noPrice)))
      else none
  | .gapDrained symbol =>
      if (job.loops symbol).stage = .draining then some (job.sizes symbol (.accounting false))
      else none
  | .accountBegins symbol =>
      match (job.loops symbol).stage, job.turn with
      | .accounting second, none =>
          -- a venue with no account truth returns at once, without the turn
          if accountTruth then
            some ({ job with turn := some symbol }.goes symbol (.accountPass second))
          else some (job.accounted symbol second)
      | .accounting second, some _ =>
          if accountTruth then none else some (job.accounted symbol second)
      | _, _ => none
  | .accountEnds symbol =>
      match (job.loops symbol).stage with
      | .accountPass second => some ({ job with turn := none }.accounted symbol second)
      | _ => none
  | .closes symbol nowNs =>
      if (job.loops symbol).stage = .closing ∧ job.turn = none then
        job.close deriveCloid config symbol nowNs
      else none
  | .closed symbol refusal =>
      match (job.loops symbol).stage with
      | .published cloid =>
          some ({ job with turn := none }.goes symbol (.deciding (.close cloid refusal)))
      | _ => none
  | .closeRaises symbol =>
      match (job.loops symbol).stage with
      | .published cloid => some ({ job with turn := none }.goes symbol (.faulted (some cloid)))
      | _ => none

variable {deriveCloid config accountTruth}

theorem step_handles {job next : Job} {signal : Signal} {verdict : GuardDecision} {nowNs : Nanos}
    (stepped : job.step deriveCloid config accountTruth (.handles signal verdict nowNs) =
      some next) :
    signal ∈ job.topic ∧ ∃ handled,
      job.engineStep deriveCloid config (.handle (inputOf verdict signal) nowNs) = some handled ∧
      { handled with topic := job.topic.erase signal } = next := by
  simp only [step] at stepped
  split at stepped
  · exact ⟨‹_›, Option.map_eq_some_iff.mp stepped⟩
  · cases stepped

variable (deriveCloid config accountTruth)

/-- The machine of a flatten run. -/
def machine : Machine Job JobMove := ⟨step deriveCloid config accountTruth⟩

end Step

end Job

end Tickwright.Engine
