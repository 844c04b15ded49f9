/-
# Engine.Remembers -- a signal on its way is saved, or its sender is still at it

`Remembers` holds in every life of the host.  A signal in the topic, at hand or behind
a saga is saved: its sender's row went through the callback that sent it.  A signal
that is queued or held is saved too, save while its sender's wrapper is at hand: then
the state in memory went through that callback, and the save is still to come.

Each kind of move has its lemma.  Those that leave the rows and the bus alone go by
`Remembers.rehosted`, those that move the consumer by `BusSound.topic`; a save is
described once, by `SavedOne`.
-/
import Tickwright.Engine.HostLives

namespace Tickwright.Engine.Host

open Tickwright.Domain Tickwright.Theory

set_option autoImplicit false

variable {State Input Signal Bytes : Type}

/-! ## The invariant -/

/-- The callbacks this was sent after end with the one that published it. -/
def Sent.Genuine (code : StrategyId → StrategyCode State Input Signal Bytes)
    (sent : Sent Input Signal) : Prop :=
  ∃ earlier call, sent.lived = earlier ++ [call] ∧
    sent.signal ∈ ((code sent.strategyId).callback ((code sent.strategyId).replay earlier)
      call.event call.input).signals

variable {config : EngineConfig State Input Signal Bytes}
  {life after : HostLife State Input Signal Bytes}

/-- The row is empty, or the snapshot of a state that went through its callbacks. -/
def RowSound (code : StrategyCode State Input Signal Bytes) (row : SnapshotRow Input Bytes) :
    Prop :=
  (row.data = none ∧ row.lived = []) ∨ row.data = some (code.snapshot (code.replay row.lived))

/-- The strategy's state went through its callbacks, the row's first, and what the host
takes for persisted is what the row holds. -/
structure Follows (code : StrategyCode State Input Signal Bytes) (row : SnapshotRow Input Bytes)
    (hosted : Hosted State Input Bytes) : Prop where
  memory : hosted.memory = code.replay hosted.lived
  extends_ : row.lived <+: hosted.lived
  persisted : hosted.persisted = row.data

/-- A callback published this, and its sender's row went through that callback. -/
structure Saved (config : EngineConfig State Input Signal Bytes)
    (rows : StrategyId → SnapshotRow Input Bytes) (sent : Sent Input Signal) : Prop where
  genuine : sent.Genuine config.code
  row : sent.lived <+: (rows sent.strategyId).lived

/-- A callback published this, and its sender's state went through that callback. -/
structure Lived (config : EngineConfig State Input Signal Bytes)
    (hosted : StrategyId → Hosted State Input Bytes) (sent : Sent Input Signal) : Prop where
  genuine : sent.Genuine config.code
  hosted : sent.lived <+: (hosted sent.strategyId).lived

/-- A signal that is this message is saved. -/
def Settled (config : EngineConfig State Input Signal Bytes)
    (rows : StrategyId → SnapshotRow Input Bytes) : Message Input Signal → Prop
  | .signal sent => Saved config rows sent
  | .routed _ | .other => True

/-- The strategy whose callback is not saved yet. -/
def Stage.caller : Stage Input Signal → Option StrategyId
  | .calling strategyId _ _ _ _ | .saving strategyId _ _ => some strategyId
  | .idle | .dispatching _ _ => none

/-- A signal that is this message is saved, or its sender is still at it. -/
def Pending (config : EngineConfig State Input Signal Bytes)
    (life : HostLife State Input Signal Bytes) : Message Input Signal → Prop
  | .signal sent => Saved config life.rows sent ∨
      (life.stage.caller = some sent.strategyId ∧ Lived config life.hosted sent)
  | .routed _ | .other => True

/-- What holds of the record at hand, and of the signals its callback has yet to send. -/
def StageSound (config : EngineConfig State Input Signal Bytes)
    (life : HostLife State Input Signal Bytes) : Prop :=
  match life.stage with
  | .idle => True
  | .dispatching message _ => Settled config life.rows message
  | .calling strategyId todo _ message _ =>
      life.phase = .running ∧ Settled config life.rows message ∧
        ∀ sent ∈ todo, sent.strategyId = strategyId ∧ Lived config life.hosted sent
  | .saving _ message _ => life.phase = .running ∧ Settled config life.rows message

/-- Signals in the topic are saved; what is queued or held is saved or still being
sent, save that a poll loop that has ended sends nothing more. -/
def BusSound (config : EngineConfig State Input Signal Bytes)
    (life : HostLife State Input Signal Bytes) : Prop :=
  match life.bus with
  | .inMemory queue => ∀ message ∈ queue, Pending config life message
  | .kafka topic =>
      (∀ partition, ∀ message ∈ topic.log partition, Settled config life.rows message) ∧
        (topic.polling = true → ∀ message ∈ topic.held, Pending config life message)

/-- What holds in every life. -/
structure Remembers (config : EngineConfig State Input Signal Bytes)
    (life : HostLife State Input Signal Bytes) : Prop where
  rows : ∀ strategyId, RowSound (config.code strategyId) (life.rows strategyId)
  follows : life.phase = .running → ∀ strategyId,
    Follows (config.code strategyId) (life.rows strategyId) (life.hosted strategyId)
  sagas : ∀ sent ∈ life.sagas, Saved config life.rows sent
  bus : BusSound config life
  stage : StageSound config life
  polls : ∀ topic, life.bus = .kafka topic → life.stage ≠ .idle → topic.polling = true

/-- The rows went through more callbacks, or as many. -/
def Grows (rows later : StrategyId → SnapshotRow Input Bytes) : Prop :=
  ∀ strategyId, (rows strategyId).lived <+: (later strategyId).lived

/-! ## What carries over -/

theorem Grows.refl (rows : StrategyId → SnapshotRow Input Bytes) : Grows rows rows :=
  fun _ => List.prefix_refl _

theorem Grows.trans {rows middle later : StrategyId → SnapshotRow Input Bytes}
    (first : Grows rows middle) (second : Grows middle later) : Grows rows later :=
  fun id => (first id).trans (second id)

theorem Saved.mono {rows later : StrategyId → SnapshotRow Input Bytes} {sent : Sent Input Signal}
    (saved : Saved config rows sent) (grows : Grows rows later) : Saved config later sent :=
  ⟨saved.genuine, saved.row.trans (grows _)⟩

theorem Settled.mono {rows later : StrategyId → SnapshotRow Input Bytes}
    {message : Message Input Signal} (settled : Settled config rows message)
    (grows : Grows rows later) : Settled config later message := by
  cases message with
  | signal sent => exact Saved.mono settled grows
  | routed event => trivial
  | other => trivial

theorem settled_of_not_signal {rows : StrategyId → SnapshotRow Input Bytes}
    {message : Message Input Signal} (other : message.isSignal = false) :
    Settled config rows message := by
  cases message with
  | signal sent => cases other
  | routed event => trivial
  | other => trivial

theorem Settled.pending {message : Message Input Signal}
    (settled : Settled config life.rows message) : Pending config life message := by
  cases message with
  | signal sent => exact .inl settled
  | routed event => trivial
  | other => trivial

/-- What is pending with no callback at hand is settled. -/
theorem Pending.settled {message : Message Input Signal} (pending : Pending config life message)
    (nobody : life.stage.caller = none) : Settled config life.rows message := by
  cases message with
  | signal sent =>
      rcases pending with saved | ⟨sending, -⟩
      · exact saved
      · rw [nobody] at sending
        cases sending
  | routed event => trivial
  | other => trivial

theorem Pending.mono {message : Message Input Signal} (pending : Pending config life message)
    (grows : Grows life.rows after.rows)
    (goes : ∀ id, life.stage.caller = some id → after.stage.caller = some id ∧
      (life.hosted id).lived <+: (after.hosted id).lived) : Pending config after message := by
  cases message with
  | signal sent =>
      rcases pending with saved | ⟨sending, lived⟩
      · exact .inl (saved.mono grows)
      · obtain ⟨still, more⟩ := goes _ sending
        exact .inr ⟨still, lived.genuine, lived.hosted.trans more⟩
  | routed event => trivial
  | other => trivial

/-- With no callback at hand, what is pending stays so whatever becomes of the host. -/
theorem Pending.stays {message : Message Input Signal} (pending : Pending config life message)
    (nobody : life.stage.caller = none) (grows : Grows life.rows after.rows) :
    Pending config after message :=
  ((pending.settled nobody).mono grows).pending

theorem BusSound.mono (sound : BusSound config life) (same : after.bus = life.bus)
    (grows : Grows life.rows after.rows)
    (goes : ∀ message, Pending config life message → Pending config after message) :
    BusSound config after := by
  unfold BusSound at sound ⊢
  rw [same]
  split at sound
  · exact fun message member => goes message (sound message member)
  · exact ⟨fun partition message member => (sound.1 partition message member).mono grows,
      fun polls message member => goes message (sound.2 polls message member)⟩

/-- What a handler publishes is pending. -/
theorem BusSound.inside (sound : BusSound config life) {messages : List (Message Input Signal)}
    (goes : ∀ message, Pending config life message → Pending config after message)
    (grows : Grows life.rows after.rows)
    (published : after.bus = life.bus.inside messages)
    (pending : ∀ message ∈ messages, Pending config after message) : BusSound config after := by
  unfold BusSound at sound ⊢
  rw [published]
  cases is : life.bus with
  | inMemory queue =>
      rw [is] at sound
      intro message member
      rcases List.mem_append.mp member with old | new
      · exact goes message (sound message old)
      · exact pending message new
  | kafka topic =>
      rw [is] at sound
      refine ⟨fun partition message member => (sound.1 partition message member).mono grows,
        fun polls message member => ?_⟩
      rcases List.mem_append.mp member with old | new
      · exact goes message (sound.2 polls message old)
      · exact pending message new

theorem mem_append {topic : Topic Input Signal} {partition other : ℕ}
    {message sent : Message Input Signal}
    (member : message ∈ (topic.append partition sent).log other) :
    message ∈ topic.log other ∨ message = sent := by
  by_cases here : other = partition
  · subst here
    simpa [Topic.append] using member
  · left
    simpa [Topic.append, here] using member

/-- A fault drops what was not sent. -/
theorem Remembers.fault (remembers : Remembers config life) (ended : Ended) :
    Remembers config (life.fault ended) := by
  refine ⟨remembers.rows, remembers.follows, remembers.sagas, ?_, trivial,
    fun topic _ busy => absurd rfl busy⟩
  have bus := remembers.bus
  unfold BusSound at bus ⊢
  unfold HostLife.fault Bus.fault
  cases is : life.bus with
  | inMemory queue =>
      intro message member
      cases member
  | kafka topic =>
      rw [is] at bus
      cases ended with
      | cancelled => exact ⟨bus.1, fun polls => by cases polls⟩
      | returned | raised | violated => exact ⟨bus.1, fun _ message member => by cases member⟩

/-! ## The moves that save nothing -/

theorem polling_of_inside {bus : Bus Input Signal} {messages : List (Message Input Signal)}
    {topic : Topic Input Signal} (published : bus.inside messages = .kafka topic) :
    ∃ before, bus = .kafka before ∧ topic.polling = before.polling := by
  cases bus with
  | inMemory queue => cases published
  | kafka before =>
      cases published
      exact ⟨before, rfl, rfl⟩

/-- The gates leave the strategy alone. -/
theorem route_keeps (hosted : Hosted State Input Bytes)
    (config : HostConfig State Input Signal Bytes) (strategyId : StrategyId) (nowNs : Nanos)
    (event : Routed) :
    (hosted.route config strategyId nowNs event).1.memory = hosted.memory ∧
      (hosted.route config strategyId nowNs event).1.lived = hosted.lived ∧
      (hosted.route config strategyId nowNs event).1.persisted = hosted.persisted := by
  cases event with
  | tick tick => exact ⟨rfl, rfl, rfl⟩
  | orderEvent event => exact ⟨rfl, rfl, rfl⟩
  | wake wake => exact ⟨rfl, rfl, rfl⟩

/-- The host may move on between callbacks: nothing that is pending hangs on it. -/
theorem Remembers.rehosted (remembers : Remembers config life)
    (nobody : life.stage.caller = none) (rows : after.rows = life.rows)
    (bus : after.bus = life.bus) (sagas : after.sagas = life.sagas)
    (follows : after.phase = .running → ∀ id,
      Follows (config.code id) (after.rows id) (after.hosted id))
    (stage : StageSound config after)
    (awake : after.stage ≠ .idle → life.stage ≠ .idle) : Remembers config after := by
  have grows : Grows life.rows after.rows := rows ▸ Grows.refl _
  refine ⟨rows ▸ remembers.rows, follows, ?_, ?_, stage, ?_⟩
  · rw [sagas]
    exact fun sent member => (remembers.sagas sent member).mono grows
  · exact remembers.bus.mono bus grows fun message pending => pending.stays nobody grows
  · rw [bus]
    exact fun topic is busy => remembers.polls topic is (awake busy)

/-- With no callback at hand, the record is settled whatever the phase. -/
theorem Remembers.stage_of_nobody (remembers : Remembers config life)
    (nobody : life.stage.caller = none) (rows : after.rows = life.rows)
    (same : after.stage = life.stage) : StageSound config after := by
  have stage := remembers.stage
  unfold StageSound at stage ⊢
  rw [same, rows]
  cases is : life.stage with
  | idle => trivial
  | dispatching message rest =>
      rw [is] at stage
      exact stage
  | calling strategyId todo ended message rest =>
      rw [is] at nobody
      cases nobody
  | saving strategyId message rest =>
      rw [is] at nobody
      cases nobody

theorem Remembers.nobody (remembers : Remembers config life) (idle : life.phase ≠ .running) :
    life.stage.caller = none := by
  have stage := remembers.stage
  unfold StageSound at stage
  cases is : life.stage with
  | idle => rfl
  | dispatching message rest => rfl
  | calling strategyId todo ended message rest =>
      rw [is] at stage
      exact absurd stage.1 idle
  | saving strategyId message rest =>
      rw [is] at stage
      exact absurd stage.1 idle

/-- A strategy restored follows its row. -/
theorem restored_follows {code : StrategyCode State Input Signal Bytes}
    {row : SnapshotRow Input Bytes} (sound : RowSound code row) :
    Follows code row (restored code row) := by
  unfold restored
  rcases sound with ⟨none, nothing⟩ | some
  · rw [none]
    exact ⟨by simp, by rw [nothing], none.symm⟩
  · rw [some]
    exact ⟨code.restores _, List.prefix_refl _, some.symm⟩

/-- A callback and its state go together, and its signals come from it. -/
theorem Remembers.called (remembers : Remembers config life) (running : life.phase = .running)
    {strategyId : StrategyId} {event : Routed} {input : Input} {rest : List Handler}
    (next : life.stage = .dispatching (.routed event) (.strategy strategyId :: rest)) :
    Remembers config (life.called config strategyId event input rest) := by
  have nobody : life.stage.caller = none := by rw [next]; rfl
  have awake : life.stage ≠ .idle := by rw [next]; intro idle; cases idle
  obtain ⟨memory, lived, persisted⟩ := route_keeps (life.hosted strategyId) config.toHostConfig
    strategyId life.nowNs event
  have follows := remembers.follows running
  have own := follows strategyId
  unfold HostLife.called
  generalize (life.hosted strategyId).route config.toHostConfig strategyId life.nowNs event = routed
    at memory lived persisted
  obtain ⟨hosted, passes⟩ := routed
  dsimp only at memory lived persisted ⊢
  cases passes with
  | false =>
      rw [if_neg Bool.false_ne_true]
      refine remembers.rehosted nobody rfl rfl rfl (fun _ id => ?_) trivial fun _ => awake
      show Follows _ _ (Function.update life.hosted strategyId hosted id)
      rw [Function.update_apply]
      split
      · rename_i same
        subst same
        exact ⟨by rw [memory, lived]; exact own.memory, by rw [lived]; exact own.extends_,
          by rw [persisted]; exact own.persisted⟩
      · exact follows id
  | true =>
      have state : hosted.memory = (config.code strategyId).replay hosted.lived := by
        rw [memory, lived]
        exact own.memory
      rw [if_pos rfl]
      refine remembers.rehosted nobody rfl rfl rfl (fun _ id => ?_)
        ⟨running, trivial, fun sent member => ?_⟩ fun _ => awake
      · show Follows _ _ (Function.update life.hosted strategyId _ id)
        rw [Function.update_apply]
        split
        · rename_i same
          subst same
          refine ⟨?_, ?_, persisted.trans own.persisted⟩
          · rw [HostLife.after, StrategyCode.replay_concat, ← state]
          · exact (lived ▸ own.extends_).trans (List.prefix_append _ _)
        · exact follows id
      · obtain ⟨signal, published, rfl⟩ := List.mem_map.mp member
        refine ⟨rfl, ⟨hosted.lived, ⟨event, input⟩, rfl, ?_⟩, ?_⟩
        · rw [← state]
          exact published
        · show _ <+: (Function.update life.hosted strategyId _ strategyId).lived
          rw [Function.update_self]

/-- The consumer moves, and what the topic and the poll loop hold does not. -/
theorem BusSound.topic (sound : BusSound config life) {topic later : Topic Input Signal}
    (was : life.bus = .kafka topic) (is : after.bus = .kafka later) (log : later.log = topic.log)
    (held : later.held = topic.held) (polling : later.polling = topic.polling)
    (grows : Grows life.rows after.rows)
    (goes : ∀ message, Pending config life message → Pending config after message) :
    BusSound config after := by
  unfold BusSound at sound ⊢
  rw [was] at sound
  rw [is]
  refine ⟨fun partition message member => ?_, fun polls message member => ?_⟩
  · rw [log] at member
    exact (sound.1 partition message member).mono grows
  · rw [polling] at polls
    rw [held] at member
    exact goes message (sound.2 polls message member)

theorem Remembers.published (remembers : Remembers config life) {partition : ℕ}
    {message : Message Input Signal} (other : message.isSignal = false) :
    Remembers config { life with bus := life.bus.outside partition message } := by
  have bus := remembers.bus
  have polls := remembers.polls
  unfold BusSound at bus
  cases is : life.bus with
  | inMemory queue =>
      rw [is] at bus
      refine ⟨remembers.rows, remembers.follows, remembers.sagas, fun held member => ?_,
        remembers.stage, fun topic is => by cases is⟩
      rcases List.mem_append.mp member with old | new
      · exact bus held old
      · rw [List.mem_singleton.mp new]
        exact (settled_of_not_signal other).pending
  | kafka topic =>
      rw [is] at bus
      refine ⟨remembers.rows, remembers.follows, remembers.sagas,
        ⟨fun place held member => ?_, bus.2⟩, remembers.stage, fun later same busy => ?_⟩
      · rcases mem_append member with old | rfl
        · exact bus.1 place held old
        · exact settled_of_not_signal other
      · cases same
        exact polls topic is busy

/-- What the bus takes is settled: nothing was sent that is not saved. -/
theorem Remembers.fetched (remembers : Remembers config life) (idle : life.stage = .idle)
    {partition : ℕ} (fetches : life.fetched config partition = some after) :
    Remembers config after := by
  have nobody : life.stage.caller = none := by rw [idle]; rfl
  have bus := remembers.bus
  unfold BusSound at bus
  unfold HostLife.fetched at fetches
  cases is : life.bus with
  | inMemory queue =>
      rw [is] at bus fetches
      cases queue with
      | nil => cases fetches
      | cons message queue =>
          cases fetches
          refine ⟨remembers.rows, remembers.follows, remembers.sagas, fun held member => ?_,
            (bus message (List.mem_cons_self ..)).settled nobody, fun topic is => by cases is⟩
          exact (bus held (List.mem_cons_of_mem _ member)).stays nobody (Grows.refl _)
  | kafka topic =>
      rw [is] at bus fetches
      dsimp only at fetches
      split at fetches
      · rename_i polling
        obtain ⟨message, there, rfl⟩ := Option.map_eq_some_iff.mp fetches
        have settled := bus.1 partition message (List.mem_of_getElem? there)
        refine ⟨remembers.rows, remembers.follows, remembers.sagas,
          remembers.bus.topic is rfl rfl rfl rfl (Grows.refl _)
            fun held pending => pending.stays nobody (Grows.refl _), ?_, ?_⟩
        · unfold StageSound
          dsimp only
          cases topic.faulted with
          | true => trivial
          | false => exact settled
        · rintro later same -
          cases same
          exact polling
      · cases fetches

/-- A saga is created of the record at hand, which is settled. -/
theorem Remembers.handled (remembers : Remembers config life) {message : Message Input Signal}
    {rest : List Handler} (next : life.stage = .dispatching message (.engine :: rest))
    {published : List (Message Input Signal)} (others : published.any Message.isSignal = false)
    (creates : Bool) :
    Remembers config { life with
      sagas := life.created message creates
      bus := life.bus.inside published
      stage := .dispatching message rest } := by
  have settled : Settled config life.rows message := by
    have stage := remembers.stage
    unfold StageSound at stage
    rw [next] at stage
    exact stage
  have nobody : life.stage.caller = none := by rw [next]; rfl
  refine ⟨remembers.rows, remembers.follows, fun sent member => ?_,
    remembers.bus.inside (fun held pending => pending.stays nobody (Grows.refl _)) (Grows.refl _)
      rfl fun held member => ?_, settled, fun topic same _ => ?_⟩
  · unfold HostLife.created at member
    split at member
    · rcases List.mem_append.mp member with old | new
      · exact remembers.sagas sent old
      · rw [List.mem_singleton.mp new]
        exact settled
    · exact remembers.sagas sent member
  · have other : held.isSignal = false := by
      simpa using List.any_eq_false.mp others held member
    exact (settled_of_not_signal other).pending
  · obtain ⟨before, is, polling⟩ := polling_of_inside same
    rw [polling]
    exact remembers.polls before is (by rw [next]; intro idle; cases idle)

/-- The callback publishes: its signal is pending while it is at it. -/
theorem Remembers.emitted (remembers : Remembers config life) {strategyId : StrategyId}
    {sent : Sent Input Signal} {todo : List (Sent Input Signal)} {ended : Ended}
    {message : Message Input Signal} {rest : List Handler}
    (calling : life.stage = .calling strategyId (sent :: todo) ended message rest) :
    Remembers config { life with
      bus := life.bus.inside [.signal sent]
      stage := .calling strategyId todo ended message rest } := by
  have stage := remembers.stage
  unfold StageSound at stage
  rw [calling] at stage
  obtain ⟨running, settled, sending⟩ := stage
  refine ⟨remembers.rows, remembers.follows, remembers.sagas,
    remembers.bus.inside (fun held pending => pending.mono (Grows.refl _) fun id own => ?_)
      (Grows.refl _) rfl fun held member => ?_,
    ⟨running, settled, fun other member => sending other (List.mem_cons_of_mem _ member)⟩,
    fun topic same _ => ?_⟩
  · rw [calling] at own
    exact ⟨own, List.prefix_refl _⟩
  · rw [List.mem_singleton.mp member]
    obtain ⟨whose, lived⟩ := sending sent (List.mem_cons_self ..)
    exact .inr ⟨congrArg some whose.symm, lived⟩
  · obtain ⟨before, is, polling⟩ := polling_of_inside same
    rw [polling]
    exact remembers.polls before is (by rw [calling]; intro idle; cases idle)

/-- The callback is over, and its strategy is next to be saved. -/
theorem Remembers.ends (remembers : Remembers config life) {strategyId : StrategyId}
    {ended : Ended} {message : Message Input Signal} {rest : List Handler}
    (calling : life.stage = .calling strategyId [] ended message rest) :
    Remembers config { life with stage := .saving strategyId message rest } := by
  have stage := remembers.stage
  unfold StageSound at stage
  rw [calling] at stage
  obtain ⟨running, settled, -⟩ := stage
  refine ⟨remembers.rows, remembers.follows, remembers.sagas,
    remembers.bus.mono rfl (Grows.refl _) fun held pending =>
      pending.mono (Grows.refl _) fun id own => ?_,
    ⟨running, settled⟩, fun topic is _ => remembers.polls topic is ?_⟩
  · rw [calling] at own
    exact ⟨own, List.prefix_refl _⟩
  · rw [calling]
    intro idle
    cases idle

/-- What a dispatch that has returned sends is settled. -/
theorem Remembers.flushed (remembers : Remembers config life) {partition : ℕ}
    {at_ message : Message Input Signal} {held : List (Message Input Signal)}
    {topic : Topic Input Signal} (returned : life.stage = .dispatching at_ [])
    (is : life.bus = .kafka topic) (holds : topic.held = message :: held) :
    Remembers config { life with
      bus := .kafka { topic.append partition message with held := held } } := by
  have nobody : life.stage.caller = none := by rw [returned]; rfl
  have polling := remembers.polls topic is (by rw [returned]; intro idle; cases idle)
  have bus := remembers.bus
  unfold BusSound at bus
  rw [is] at bus
  have pending : ∀ kept ∈ message :: held, Pending config life kept := by
    rw [← holds]
    exact bus.2 polling
  refine ⟨remembers.rows, remembers.follows, remembers.sagas,
    ⟨fun place kept member => ?_, fun _ kept member => ?_⟩, remembers.stage,
    fun later same _ => ?_⟩
  · rcases mem_append member with old | rfl
    · exact bus.1 place kept old
    · exact (pending _ (List.mem_cons_self ..)).settled nobody
  · exact (pending kept (List.mem_cons_of_mem _ member)).stays nobody (Grows.refl _)
  · cases same
    exact polling

/-- The dispatch on the queue is over. -/
theorem Remembers.returned (remembers : Remembers config life) {message : Message Input Signal}
    (returned : life.stage = .dispatching message []) :
    Remembers config { life with stage := .idle } := by
  have nobody : life.stage.caller = none := by rw [returned]; rfl
  exact remembers.rehosted nobody rfl rfl rfl remembers.follows trivial fun busy =>
    absurd rfl busy

/-- The consumer's place on the topic is no part of the promise. -/
theorem Remembers.repositioned (remembers : Remembers config life)
    {topic later : Topic Input Signal} (is : life.bus = .kafka topic)
    (log : later.log = topic.log) (held : later.held = topic.held)
    (polling : later.polling = topic.polling) :
    Remembers config { life with bus := .kafka later } := by
  refine ⟨remembers.rows, remembers.follows, remembers.sagas,
    remembers.bus.topic is rfl log held polling (Grows.refl _) fun message pending => pending,
    remembers.stage, fun other same busy => ?_⟩
  cases same
  exact polling.trans (remembers.polls topic is busy)

/-- A crash leaves the store and the topic. -/
theorem Remembers.crashed (remembers : Remembers config life) :
    Remembers config { life with phase := .down, bus := life.bus.rebooted, stage := .idle } := by
  have bus := remembers.bus
  unfold BusSound at bus
  refine ⟨remembers.rows, fun running => (by cases running), remembers.sagas, ?_, trivial,
    fun topic _ busy => absurd rfl busy⟩
  unfold BusSound Bus.rebooted
  cases is : life.bus with
  | inMemory queue =>
      intro message member
      cases member
  | kafka topic =>
      rw [is] at bus
      exact ⟨bus.1, fun _ message member => by cases member⟩

/-! ## Saving -/

variable [DecidableEq Bytes]

/-- **Saving makes the row hold the state at hand**, written or not. -/
theorem persist_spec {code : StrategyCode State Input Signal Bytes} {row : SnapshotRow Input Bytes}
    {hosted : Hosted State Input Bytes} (follows : Follows code row hosted) :
    RowSound code (persist code row hosted).1 ∧
      Follows code (persist code row hosted).1 (persist code row hosted).2 ∧
      (persist code row hosted).1.lived = hosted.lived ∧
      (persist code row hosted).2.lived = hosted.lived := by
  unfold persist
  by_cases same : hosted.persisted = some (code.snapshot hosted.memory)
  · simp only [same, if_true]
    have written : row.data = some (code.snapshot (code.replay hosted.lived)) := by
      rw [← follows.persisted, same, follows.memory]
    exact ⟨.inr written, ⟨follows.memory, List.prefix_refl _, follows.persisted⟩, trivial,
      trivial⟩
  · simp only [same, if_false]
    exact ⟨.inr (by rw [follows.memory]), ⟨follows.memory, List.prefix_refl _, rfl⟩, trivial,
      trivial⟩

/-- What saving one strategy does to the rows and to the host. -/
structure SavedOne (config : EngineConfig State Input Signal Bytes)
    (life after : HostLife State Input Signal Bytes) (strategyId : StrategyId) : Prop where
  rows : ∀ id, RowSound (config.code id) (after.rows id)
  follows : ∀ id, Follows (config.code id) (after.rows id) (after.hosted id)
  grows : Grows life.rows after.rows
  lived : ∀ id, (after.hosted id).lived = (life.hosted id).lived
  holds : (after.rows strategyId).lived = (life.hosted strategyId).lived

theorem Remembers.savedOne (remembers : Remembers config life) (running : life.phase = .running)
    (strategyId : StrategyId) :
    SavedOne config life (life.saved config strategyId) strategyId := by
  have follows := remembers.follows running
  obtain ⟨sound, goesOn, row, kept⟩ := persist_spec (follows strategyId)
  have rowsAt : ∀ id, (life.saved config strategyId).rows id =
      if id = strategyId then
        (persist (config.code strategyId) (life.rows strategyId) (life.hosted strategyId)).1
      else life.rows id := fun id => Function.update_apply ..
  have hostedAt : ∀ id, (life.saved config strategyId).hosted id =
      if id = strategyId then
        (persist (config.code strategyId) (life.rows strategyId) (life.hosted strategyId)).2
      else life.hosted id := fun id => Function.update_apply ..
  refine ⟨fun id => ?_, fun id => ?_, fun id => ?_, fun id => ?_, ?_⟩
  · rw [rowsAt]
    split
    · rename_i same
      exact same ▸ sound
    · exact remembers.rows id
  · rw [rowsAt, hostedAt]
    split
    · rename_i same
      exact same ▸ goesOn
    · exact follows id
  · rw [rowsAt]
    split
    · rename_i same
      rw [row, same]
      exact (follows strategyId).extends_
    · exact List.prefix_refl _
  · rw [hostedAt]
    split
    · rename_i same
      rw [kept, same]
    · rfl
  · rw [rowsAt, if_pos rfl, row]

/-- Saving keeps every promise. -/
theorem Remembers.saved (remembers : Remembers config life) (running : life.phase = .running)
    (strategyId : StrategyId) : Remembers config (life.saved config strategyId) := by
  have one := remembers.savedOne running strategyId
  have goes : ∀ message, Pending config life message →
      Pending config (life.saved config strategyId) message := fun message pending =>
    pending.mono one.grows fun id sending => ⟨sending, by rw [one.lived]⟩
  refine ⟨one.rows, fun _ => one.follows, fun sent member => (remembers.sagas sent member).mono
    one.grows, remembers.bus.mono rfl one.grows goes, ?_, remembers.polls⟩
  have stage := remembers.stage
  unfold StageSound at stage ⊢
  show match life.stage with
    | .idle => True
    | .dispatching message _ => Settled config (life.saved config strategyId).rows message
    | .calling id todo _ message _ => life.phase = .running ∧
        Settled config (life.saved config strategyId).rows message ∧
        ∀ sent ∈ todo, sent.strategyId = id ∧
          Lived config (life.saved config strategyId).hosted sent
    | .saving _ message _ => life.phase = .running ∧
        Settled config (life.saved config strategyId).rows message
  split at stage
  · trivial
  · exact stage.mono one.grows
  · refine ⟨stage.1, stage.2.1.mono one.grows, fun sent member => ?_⟩
    obtain ⟨whose, lived⟩ := stage.2.2 sent member
    exact ⟨whose, lived.genuine, by rw [one.lived]; exact lived.hosted⟩
  · exact ⟨stage.1, stage.2.mono one.grows⟩

/-- The save that ends a wrapper: what its callback sent is now saved. -/
theorem Remembers.saves (remembers : Remembers config life) {strategyId : StrategyId}
    {message : Message Input Signal} {rest : List Handler}
    (saving : life.stage = .saving strategyId message rest) :
    Remembers config { life.saved config strategyId with stage := .dispatching message rest } := by
  have stage := remembers.stage
  unfold StageSound at stage
  rw [saving] at stage
  obtain ⟨running, settled⟩ := stage
  have one := remembers.savedOne running strategyId
  refine ⟨one.rows, fun _ => one.follows, fun sent member => (remembers.sagas sent member).mono
    one.grows, remembers.bus.mono rfl one.grows fun held pending => ?_, settled.mono one.grows,
    fun topic is _ => remembers.polls topic is (by rw [saving]; intro idle; cases idle)⟩
  cases held with
  | signal sent =>
      rcases pending with saved | ⟨sending, lived⟩
      · exact .inl (saved.mono one.grows)
      · rw [saving] at sending
        cases sending
        exact .inl ⟨lived.genuine, by rw [one.holds]; exact lived.hosted⟩
  | routed event => trivial
  | other => trivial

theorem Remembers.stopped (remembers : Remembers config life) (running : life.phase = .running)
    (count : ℕ) : Remembers config (life.stopped config count) := by
  unfold HostLife.stopped
  generalize config.handlers.take count = handlers
  induction handlers generalizing life with
  | nil => exact remembers
  | cons handler rest ih =>
      rw [List.foldl_cons]
      cases handler with
      | engine => exact ih remembers running
      | strategy strategyId => exact ih (remembers.saved running strategyId) running

end Tickwright.Engine.Host
