/-
# Engine.HostLives -- the host and its bus over any number of process lives

A record is fetched, its handlers are awaited one by one, and the dispatch returns.
A strategy's wrapper is a handler in four parts: the gates and the callback, its
publishes, its end, and the save.  Between any two of them the process may crash, the
clock may move, and what runs outside the handlers may publish.

A restart is `boot`, which brings the bus back with blank strategies, and `start`,
which restores them.  On Kafka a record comes again when the consumer resumes from
what is committed.
-/
import Tickwright.Engine.StrategyHost
import Tickwright.Theory.Machine

namespace Tickwright.Engine.Host

open Tickwright.Domain Tickwright.Theory

set_option autoImplicit false

variable {State Input Signal Bytes : Type}

/-! ## Any number of lives -/

/-- An entry of `Subscriptions`: one of the engine's own, or a strategy's wrapper. -/
inductive Handler
  | engine
  | strategy (strategyId : StrategyId)
deriving DecidableEq

/-- Where the record at hand is. -/
inductive Stage (Input Signal : Type)
  | idle
  /-- `rest` is yet to be awaited. -/
  | dispatching (message : Message Input Signal) (rest : List Handler)
  /-- A callback that has yet to publish `todo` and then ends so. -/
  | calling (strategyId : StrategyId) (todo : List (Sent Input Signal)) (ended : Ended)
      (message : Message Input Signal) (rest : List Handler)
  /-- The callback is over; `_persist` is next. -/
  | saving (strategyId : StrategyId) (message : Message Input Signal) (rest : List Handler)

/-- Where the process is. -/
inductive Phase
  | down
  /-- The bus runs, and the host has not started. -/
  | booted
  | running
deriving DecidableEq

/-- The store, the sagas created of a strategy's signal, the bus, and the process. -/
structure HostLife (State Input Signal Bytes : Type) where
  nowNs : Nanos := 0
  rows : StrategyId → SnapshotRow Input Bytes := fun _ => {}
  sagas : List (Sent Input Signal) := []
  phase : Phase := .down
  hosted : StrategyId → Hosted State Input Bytes
  bus : Bus Input Signal
  stage : Stage Input Signal := .idle

/-- One step of the process, or of what is around it. -/
inductive HostMove (Input Signal : Type)
  | clock (nowNs : Nanos)
  | boot
  /-- `StrategyHost.start`. -/
  | start
  /-- `StrategyHost.stop`, as far as it comes. -/
  | stop (count : ℕ)
  | crash
  /-- A publish from outside the handlers. -/
  | publish (partition : ℕ) (message : Message Input Signal)
  /-- The bus takes the next record. -/
  | fetch (partition : ℕ)
  /-- One of the engine's own handlers. -/
  | engine (published : List (Message Input Signal)) (creates : Bool) (ended : Ended)
  /-- A strategy's wrapper, up to and into the callback. -/
  | call (input : Input)
  /-- The callback publishes its next signal. -/
  | emit
  | callEnds
  | save
  | saveFails
  /-- `_flush_held`, one event. -/
  | flush (partition : ℕ)
  | flushFails
  /-- The dispatch is over: the record is committed. -/
  | returns
  /-- The fault reaches the publisher that drains. -/
  | reraise
  /-- The group rebalances: the consumer resumes from what is committed. -/
  | rebalance

/-- A host and the order its handlers were registered in. -/
structure EngineConfig (State Input Signal Bytes : Type) extends
    HostConfig State Input Signal Bytes where
  handlers : List Handler

namespace HostLife

/-- The entries a dispatch awaits: a strategy wants what is routed, once the host has
started. -/
def entries (config : EngineConfig State Input Signal Bytes)
    (life : HostLife State Input Signal Bytes) (message : Message Input Signal) : List Handler :=
  config.handlers.filter fun
    | .engine => true
    | .strategy _ => match message with
      | .routed _ => decide (life.phase = .running)
      | .signal _ | .other => false

/-- A handler raised: the dispatch is over. -/
def fault (life : HostLife State Input Signal Bytes) (ended : Ended) :
    HostLife State Input Signal Bytes :=
  { life with bus := life.bus.fault ended, stage := .idle }

/-- The record the bus takes next, and the bus past it; a topic with a stored fault
drops it. -/
def fetched (config : EngineConfig State Input Signal Bytes)
    (life : HostLife State Input Signal Bytes) (partition : ℕ) :
    Option (HostLife State Input Signal Bytes) :=
  match life.bus with
  | .inMemory [] => none
  | .inMemory (message :: queue) => some { life with
      bus := .inMemory queue
      stage := .dispatching message (life.entries config message) }
  | .kafka topic =>
      if topic.polling then
        ((topic.log partition)[topic.position partition]?).map fun message =>
          { life with
            bus := .kafka (topic.passed partition)
            stage := if topic.faulted then .idle
              else .dispatching message (life.entries config message) }
      else none

/-- The sagas after one of the engine's handlers has handled this. -/
def created (life : HostLife State Input Signal Bytes) (message : Message Input Signal)
    (creates : Bool) : List (Sent Input Signal) :=
  match message, creates with
  | .signal sent, true => life.sagas ++ [sent]
  | _, _ => life.sagas

/-- A strategy as its callback leaves it. -/
def after (hosted : Hosted State Input Bytes) (call : Callback Input) (state : State) :
    Hosted State Input Bytes :=
  { hosted with memory := state, lived := hosted.lived ++ [call] }

/-- The wrapper of one strategy, on one event. -/
def called (config : EngineConfig State Input Signal Bytes)
    (life : HostLife State Input Signal Bytes) (strategyId : StrategyId) (event : Routed)
    (input : Input) (rest : List Handler) : HostLife State Input Signal Bytes :=
  let (hosted, passes) :=
    (life.hosted strategyId).route config.toHostConfig strategyId life.nowNs event
  if passes then
    let outcome := (config.code strategyId).callback hosted.memory event input
    let hosted := after hosted ⟨event, input⟩ outcome.state
    { life with
      hosted := Function.update life.hosted strategyId hosted
      stage := .calling strategyId
        (outcome.signals.map fun signal => ⟨signal, strategyId, hosted.lived⟩) outcome.ended
        (.routed event) rest }
  else
    { life with
      hosted := Function.update life.hosted strategyId hosted
      stage := .dispatching (.routed event) rest }

variable [DecidableEq Bytes]

/-- `_persist` of one strategy. -/
def saved (config : EngineConfig State Input Signal Bytes)
    (life : HostLife State Input Signal Bytes) (strategyId : StrategyId) :
    HostLife State Input Signal Bytes :=
  let (row, hosted) :=
    persist (config.code strategyId) (life.rows strategyId) (life.hosted strategyId)
  { life with
    rows := Function.update life.rows strategyId row
    hosted := Function.update life.hosted strategyId hosted }

/-- `StrategyHost.stop` after so many of the handlers: their strategies are saved. -/
def stopped (config : EngineConfig State Input Signal Bytes)
    (life : HostLife State Input Signal Bytes) (count : ℕ) : HostLife State Input Signal Bytes :=
  (config.handlers.take count).foldl (fun life handler =>
    match handler with
    | .engine => life
    | .strategy strategyId => life.saved config strategyId) life

end HostLife

variable [DecidableEq Bytes]

/-- **The host on its bus**, over any number of lives. -/
def hostMachine (config : EngineConfig State Input Signal Bytes) :
    Machine (HostLife State Input Signal Bytes) (HostMove Input Signal) where
  step life move :=
    match move with
    | .clock nowNs => some { life with nowNs := nowNs }
    | .boot =>
        if life.phase = .down then
          some { life with
            phase := .booted
            hosted := fun strategyId => { memory := (config.code strategyId).blank } }
        else none
    | .start =>
        if life.phase = .booted then
          some { life with
            phase := .running
            hosted := fun strategyId => restored (config.code strategyId) (life.rows strategyId) }
        else none
    | .stop count => if life.phase = .running then some (life.stopped config count) else none
    | .crash =>
        if life.phase = .down then none
        else some { life with phase := .down, bus := life.bus.rebooted, stage := .idle }
    | .publish partition message =>
        if life.phase = .down ∨ message.isSignal = true then none
        else some { life with bus := life.bus.outside partition message }
    | .fetch partition =>
        match life.phase, life.stage with
        | .down, _ => none
        | _, .idle => life.fetched config partition
        | _, _ => none
    | .engine published creates ended =>
        match life.stage with
        | .dispatching message (.engine :: rest) =>
            if published.any Message.isSignal then none
            else
              let next := { life with
                sagas := life.created message creates
                bus := life.bus.inside published
                stage := .dispatching message rest }
              match ended with
              | .returned => some next
              | _ => some (next.fault ended)
        | _ => none
    | .call input =>
        match life.phase, life.stage with
        | .running, .dispatching (.routed event) (.strategy strategyId :: rest) =>
            some (life.called config strategyId event input rest)
        | _, _ => none
    | .emit =>
        match life.stage with
        | .calling strategyId (sent :: todo) ended message rest =>
            some { life with
              bus := life.bus.inside [.signal sent]
              stage := .calling strategyId todo ended message rest }
        | _ => none
    | .callEnds =>
        match life.stage with
        | .calling strategyId [] ended message rest =>
            match ended with
            -- The containment net swallows what is no `InvariantViolation`.
            | .returned | .raised => some { life with stage := .saving strategyId message rest }
            | .violated | .cancelled => some (life.fault ended)
        | _ => none
    | .save =>
        match life.stage with
        | .saving strategyId message rest =>
            some { life.saved config strategyId with stage := .dispatching message rest }
        | _ => none
    | .saveFails =>
        match life.stage with
        | .saving _ _ _ => some (life.fault .raised)
        | _ => none
    | .flush partition =>
        match life.stage, life.bus with
        | .dispatching _ [], .kafka topic =>
            match topic.held with
            | message :: held => some { life with
                bus := .kafka { topic.append partition message with held := held } }
            | [] => none
        | _, _ => none
    | .flushFails =>
        match life.stage, life.bus with
        | .dispatching _ [], .kafka _ => some (life.fault .raised)
        | _, _ => none
    | .returns =>
        match life.stage, life.bus with
        | .dispatching _ [], .inMemory _ => some { life with stage := .idle }
        | .dispatching _ [], .kafka topic =>
            match topic.held with
            | [] => some { life with
                bus := .kafka { topic with committed := topic.position }, stage := .idle }
            | _ :: _ => none
        | _, _ => none
    | .reraise =>
        match life.bus with
        | .inMemory _ => none
        | .kafka topic => some { life with bus := .kafka { topic with faulted := false } }
    | .rebalance =>
        match life.bus with
        | .inMemory _ => none
        | .kafka topic => some { life with bus := .kafka topic.resumed }

end Tickwright.Engine.Host
