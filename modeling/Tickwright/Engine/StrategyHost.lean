/-
# Engine.StrategyHost -- the host of the strategies, on either bus

Each strategy is a state machine with a snapshot that captures its whole state
(`StrategyCode.restores`).  The host routes events to it through its gates, contains
what a callback raises, and saves the snapshot after each callback if it moved.

Both buses deliver one record at a time.  `InMemoryBus` queues what a handler
publishes behind the record; `KafkaBus` holds it until the dispatch has returned,
then sends it and commits.  A handler that raises empties the queue or what is held.
The engine's own handlers are left open: they publish what they like, save that they
publish no strategy's signal, and create a saga of a signal only while they handle it.

A callback's publishes are moves of their own, as are its end and its save, so a
crash falls between any two.  `lived` is kept for the statements alone: the callbacks
a state went through, the ones before a restart included.
-/
import Mathlib.Logic.Function.Basic
import Tickwright.Engine.WakeSlots
import Tickwright.Feed.Ticks
import Tickwright.Theory.Dict

namespace Tickwright.Engine.Host

open Tickwright.Domain Tickwright.Theory

set_option autoImplicit false

/-! ## Strategies -/

/-- What the host routes to its strategies. -/
inductive Routed
  | tick (tick : Feed.MarketTick)
  | orderEvent (event : OrderEvent)
  | wake (wake : Wake)
deriving DecidableEq

/-- How a handler ended. -/
inductive Ended
  | returned
  /-- An `Exception` other than an `InvariantViolation`. -/
  | raised
  /-- An `InvariantViolation`, or what is no `Exception`. -/
  | violated
  /-- A `CancelledError`. -/
  | cancelled
deriving DecidableEq

/-- What one callback did to its strategy. -/
structure Called (State Signal : Type) where
  state : State
  signals : List Signal := []
  ended : Ended := .returned

/-- A strategy.  `Input` is what a callback reads besides its state: the clock, its
portfolio, its next seq. -/
structure StrategyCode (State Input Signal Bytes : Type) where
  blank : State
  /-- `on_tick`, `on_order_event` and `on_wake`. -/
  callback : State → Routed → Input → Called State Signal
  snapshot : State → Bytes
  restore : Bytes → State
  restores : ∀ state, restore (snapshot state) = state

/-- One callback that was made. -/
structure Callback (Input : Type) where
  event : Routed
  input : Input
deriving DecidableEq

variable {State Input Signal Bytes : Type}

/-- The state these callbacks lead to. -/
def StrategyCode.replay (code : StrategyCode State Input Signal Bytes)
    (lived : List (Callback Input)) : State :=
  lived.foldl (fun state call => (code.callback state call.event call.input).state) code.blank

@[simp] theorem StrategyCode.replay_nil (code : StrategyCode State Input Signal Bytes) :
    code.replay [] = code.blank := rfl

@[simp] theorem StrategyCode.replay_concat (code : StrategyCode State Input Signal Bytes)
    (lived : List (Callback Input)) (call : Callback Input) :
    code.replay (lived ++ [call]) =
      (code.callback (code.replay lived) call.event call.input).state := by
  simp [StrategyCode.replay]

/-! ## The gates -/

/-- The last tick let through, for each symbol. -/
structure TickGate where
  highWater : Dict Symbol (Nanos × ℕ) := Dict.empty

/-- `on_tick`: whether the callback is made, and what the gate keeps. -/
def TickGate.onTick (gate : TickGate) (symbols : List Symbol) (stalenessNs : Option Nanos)
    (nowNs : Nanos) (tick : Feed.MarketTick) : TickGate × Bool :=
  if tick.symbol ∉ symbols then (gate, false)
  else if (gate.highWater.get tick.symbol).any fun last =>
      decide (tick.tsEvent < last.1 ∨ tick.tsEvent = last.1 ∧ tick.seq ≤ last.2) then
    (gate, false)
  else if stalenessNs.any fun staleness => decide (nowNs - tick.tsEvent > staleness) then
    (gate, false)
  else ({ highWater := gate.highWater.set tick.symbol (tick.tsEvent, tick.seq) }, true)

/-- What a host is set up with. -/
structure HostConfig (State Input Signal Bytes : Type) where
  code : StrategyId → StrategyCode State Input Signal Bytes
  symbols : StrategyId → List Symbol
  /-- `duration_ns` of the registered wake interval. -/
  wakeMaxAgeNs : StrategyId → Option Nanos
  tickStalenessNs : Option Nanos

/-- One strategy as the host holds it: its state, its gates, the bytes last persisted,
and the callbacks its state went through. -/
structure Hosted (State Input Bytes : Type) where
  memory : State
  tickGate : TickGate := {}
  wakeGate : WakeGate := {}
  persisted : Option Bytes := none
  lived : List (Callback Input) := []

/-- The wrapped subscriptions up to the callback: whether it is made. -/
def Hosted.route (hosted : Hosted State Input Bytes)
    (config : HostConfig State Input Signal Bytes) (strategyId : StrategyId) (nowNs : Nanos) :
    Routed → Hosted State Input Bytes × Bool
  | .tick tick =>
      let (gate, passes) := hosted.tickGate.onTick (config.symbols strategyId)
        config.tickStalenessNs nowNs tick
      ({ hosted with tickGate := gate }, passes)
  | .orderEvent event => (hosted, decide (event.strategyId = strategyId))
  | .wake wake =>
      let (gate, passes) := hosted.wakeGate.onWake strategyId (config.wakeMaxAgeNs strategyId)
        nowNs wake
      ({ hosted with wakeGate := gate }, passes)

/-! ## Saving and restoring -/

/-- A strategy's row: its snapshot, and the callbacks that snapshot went through. -/
structure SnapshotRow (Input Bytes : Type) where
  data : Option Bytes := none
  lived : List (Callback Input) := []

/-- `_persist`: no write where the bytes have not moved.  The row then holds this
state either way. -/
def persist [DecidableEq Bytes] (code : StrategyCode State Input Signal Bytes)
    (row : SnapshotRow Input Bytes) (hosted : Hosted State Input Bytes) :
    SnapshotRow Input Bytes × Hosted State Input Bytes :=
  let data := code.snapshot hosted.memory
  if hosted.persisted = some data then ({ row with lived := hosted.lived }, hosted)
  else (⟨some data, hosted.lived⟩, { hosted with persisted := some data })

/-- `_restore`, into a strategy just built. -/
def restored (code : StrategyCode State Input Signal Bytes) (row : SnapshotRow Input Bytes) :
    Hosted State Input Bytes :=
  match row.data with
  | none => { memory := code.blank }
  | some data => { memory := code.restore data, persisted := some data, lived := row.lived }

/-! ## The buses -/

/-- A signal as it is published: whose it is, and the callbacks its sender's state
went through, the sending one last. -/
structure Sent (Input Signal : Type) where
  signal : Signal
  strategyId : StrategyId
  lived : List (Callback Input)

/-- An event on the bus. -/
inductive Message (Input Signal : Type)
  | routed (event : Routed)
  | signal (sent : Sent Input Signal)
  /-- Anything else: reports, accruals, the operator's own signals. -/
  | other

def Message.isSignal : Message Input Signal → Bool
  | .signal _ => true
  | .routed _ | .other => false

/-- The topic, what the consumer fetches next and has committed on each partition, and
what the poll loop holds.  `faulted` is a stored `_dispatch_fault`. -/
structure Topic (Input Signal : Type) where
  log : ℕ → List (Message Input Signal) := fun _ => []
  position : ℕ → ℕ := fun _ => 0
  committed : ℕ → ℕ := fun _ => 0
  held : List (Message Input Signal) := []
  faulted : Bool := false
  polling : Bool := true

/-- Either bus. -/
inductive Bus (Input Signal : Type)
  | inMemory (queue : List (Message Input Signal))
  | kafka (topic : Topic Input Signal)

namespace Topic

def append (topic : Topic Input Signal) (partition : ℕ) (message : Message Input Signal) :
    Topic Input Signal :=
  { topic with
    log := Function.update topic.log partition (topic.log partition ++ [message]) }

/-- The consumer goes past one record. -/
def passed (topic : Topic Input Signal) (partition : ℕ) : Topic Input Signal :=
  { topic with position := Function.update topic.position partition (topic.position partition + 1) }

/-- The consumer resumes from what was committed. -/
def resumed (topic : Topic Input Signal) : Topic Input Signal :=
  { topic with position := topic.committed }

end Topic

namespace Bus

/-- `publish` from inside a handler. -/
def inside (bus : Bus Input Signal) (messages : List (Message Input Signal)) : Bus Input Signal :=
  match bus with
  | .inMemory queue => .inMemory (queue ++ messages)
  | .kafka topic => .kafka { topic with held := topic.held ++ messages }

/-- A `publish` from outside the handlers. -/
def outside (bus : Bus Input Signal) (partition : ℕ) (message : Message Input Signal) :
    Bus Input Signal :=
  match bus with
  | .inMemory queue => .inMemory (queue ++ [message])
  | .kafka topic => .kafka (topic.append partition message)

/-- A handler raised. -/
def fault (bus : Bus Input Signal) (ended : Ended) : Bus Input Signal :=
  match bus, ended with
  | .inMemory _, _ => .inMemory []
  | .kafka topic, .cancelled => .kafka { topic with polling := false }
  | .kafka topic, _ => .kafka { topic with held := [], faulted := true }

/-- What a new process finds of the bus. -/
def rebooted : Bus Input Signal → Bus Input Signal
  | .inMemory _ => .inMemory []
  | .kafka topic => .kafka { topic.resumed with held := [], faulted := false, polling := true }

end Bus

end Tickwright.Engine.Host
