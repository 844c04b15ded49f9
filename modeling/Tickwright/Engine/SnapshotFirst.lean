/-
# Engine.SnapshotFirst -- a strategy never forgets a signal it sent

The host saves a strategy's snapshot after each callback, and on either bus what the
callback published goes nowhere before that: the queue waits for the dispatch to
return, and so does what is held.  A fault or a crash in between drops the signals,
never the memory of signals that stay.

* `remembers_step` and `remembers_run` carry `Remembers` through any run;
* `signal_remembered`: when a saga was created for a signal, the stored snapshot is,
  then and ever after, of a state that went through the callback that sent it.
-/
import Tickwright.Engine.Remembers

namespace Tickwright.Engine.Host

open Tickwright.Domain Tickwright.Theory

set_option autoImplicit false

variable {State Input Signal Bytes : Type}
  {config : EngineConfig State Input Signal Bytes}
  {life after : HostLife State Input Signal Bytes}

/-! ## Sagas stay -/

theorem created_grows (life : HostLife State Input Signal Bytes) (message : Message Input Signal)
    (creates : Bool) : life.sagas <+: life.created message creates := by
  unfold HostLife.created
  split
  · exact List.prefix_append _ _
  · exact List.prefix_refl _

theorem fetched_sagas {partition : ℕ} (fetches : life.fetched config partition = some after) :
    after.sagas = life.sagas := by
  unfold HostLife.fetched at fetches
  split at fetches
  · cases fetches
  · cases fetches
    rfl
  · split at fetches
    · obtain ⟨message, -, rfl⟩ := Option.map_eq_some_iff.mp fetches
      rfl
    · cases fetches

theorem called_sagas (life : HostLife State Input Signal Bytes) (strategyId : StrategyId)
    (event : Routed) (input : Input) (rest : List Handler) :
    (life.called config strategyId event input rest).sagas = life.sagas := by
  unfold HostLife.called
  dsimp only
  split
  · rfl
  · rfl

variable [DecidableEq Bytes]

theorem stopped_sagas (life : HostLife State Input Signal Bytes) (count : ℕ) :
    (life.stopped config count).sagas = life.sagas := by
  unfold HostLife.stopped
  generalize config.handlers.take count = handlers
  induction handlers generalizing life with
  | nil => rfl
  | cons handler rest ih =>
      rw [List.foldl_cons, ih]
      cases handler with
      | engine => rfl
      | strategy strategyId => rfl

/-- **No step takes a saga back.** -/
theorem sagas_grow {move : HostMove Input Signal}
    (steps : (hostMachine config).step life move = some after) : life.sagas <+: after.sagas := by
  cases move with
  | stop count =>
      simp only [hostMachine] at steps
      split at steps
      · cases steps
        rw [stopped_sagas]
      · cases steps
  | fetch partition =>
      simp only [hostMachine] at steps
      split at steps
      · cases steps
      · rw [fetched_sagas steps]
      · cases steps
  | engine published creates ended =>
      simp only [hostMachine] at steps
      split at steps
      · split at steps
        · cases steps
        · cases ended with
          | returned | raised | violated | cancelled =>
              cases steps
              exact created_grows ..
      · cases steps
  | call input =>
      simp only [hostMachine] at steps
      split at steps
      · cases steps
        rw [called_sagas]
      · cases steps
  | clock nowNs =>
      cases steps
      exact List.prefix_refl _
  | boot | start | crash | publish | emit | save | saveFails | flushFails | reraise
  | rebalance =>
      simp only [hostMachine] at steps
      split at steps
      all_goals cases steps
      all_goals exact List.prefix_refl _
  | callEnds =>
      simp only [hostMachine] at steps
      split at steps
      · split at steps
        all_goals cases steps
        all_goals exact List.prefix_refl _
      · cases steps
  | flush partition =>
      simp only [hostMachine] at steps
      split at steps
      · split at steps
        · cases steps
          exact List.prefix_refl _
        · cases steps
      · cases steps
  | returns =>
      simp only [hostMachine] at steps
      split at steps
      · cases steps
        exact List.prefix_refl _
      · split at steps
        · cases steps
          exact List.prefix_refl _
        · cases steps
      · cases steps

/-! ## One step -/

/-- **One step keeps what the host remembers.** -/
theorem remembers_step {move : HostMove Input Signal} (remembers : Remembers config life)
    (steps : (hostMachine config).step life move = some after) : Remembers config after := by
  cases move with
  | clock nowNs =>
      cases steps
      exact ⟨remembers.rows, remembers.follows, remembers.sagas, remembers.bus, remembers.stage,
        remembers.polls⟩
  | boot =>
      simp only [hostMachine] at steps
      split at steps
      · rename_i down
        cases steps
        have nobody := remembers.nobody (by rw [down]; intro running; cases running)
        exact remembers.rehosted nobody rfl rfl rfl (fun running => by cases running)
          (remembers.stage_of_nobody nobody rfl rfl) id
      · cases steps
  | start =>
      simp only [hostMachine] at steps
      split at steps
      · rename_i booted
        cases steps
        have nobody := remembers.nobody (by rw [booted]; intro running; cases running)
        exact remembers.rehosted nobody rfl rfl rfl
          (fun _ strategyId => restored_follows (remembers.rows strategyId))
          (remembers.stage_of_nobody nobody rfl rfl) id
      · cases steps
  | stop count =>
      simp only [hostMachine] at steps
      split at steps
      · rename_i running
        cases steps
        exact remembers.stopped running count
      · cases steps
  | crash =>
      simp only [hostMachine] at steps
      split at steps
      · cases steps
      · cases steps
        exact remembers.crashed
  | publish partition message =>
      simp only [hostMachine] at steps
      split at steps
      · cases steps
      · rename_i allowed
        cases steps
        rw [not_or] at allowed
        exact remembers.published (by simpa using allowed.2)
  | fetch partition =>
      simp only [hostMachine] at steps
      split at steps
      · cases steps
      · rename_i idle _
        exact remembers.fetched idle steps
      · cases steps
  | engine published creates ended =>
      simp only [hostMachine] at steps
      split at steps
      · rename_i next
        split at steps
        · cases steps
        · rename_i others
          have handled := remembers.handled next (by simpa using others) creates
          cases ended with
          | returned =>
              cases steps
              exact handled
          | raised | violated | cancelled =>
              cases steps
              exact handled.fault _
      · cases steps
  | call input =>
      simp only [hostMachine] at steps
      split at steps
      · rename_i running next
        cases steps
        exact remembers.called running next
      · cases steps
  | emit =>
      simp only [hostMachine] at steps
      split at steps
      · rename_i calling
        cases steps
        exact remembers.emitted calling
      · cases steps
  | callEnds =>
      simp only [hostMachine] at steps
      split at steps
      · rename_i calling
        split at steps
        · cases steps
          exact remembers.ends calling
        · cases steps
          exact remembers.ends calling
        · cases steps
          exact remembers.fault _
        · cases steps
          exact remembers.fault _
      · cases steps
  | save =>
      simp only [hostMachine] at steps
      split at steps
      · rename_i saving
        cases steps
        exact remembers.saves saving
      · cases steps
  | saveFails =>
      simp only [hostMachine] at steps
      split at steps
      · cases steps
        exact remembers.fault _
      · cases steps
  | flush partition =>
      simp only [hostMachine] at steps
      split at steps
      · rename_i returned is
        split at steps
        · rename_i holds
          cases steps
          exact remembers.flushed returned is holds
        · cases steps
      · cases steps
  | flushFails =>
      simp only [hostMachine] at steps
      split at steps
      · cases steps
        exact remembers.fault _
      · cases steps
  | returns =>
      simp only [hostMachine] at steps
      split at steps
      · rename_i returned is
        cases steps
        exact remembers.returned returned
      · rename_i topic returned is
        split at steps
        · cases steps
          have moved : Remembers config
              { life with bus := .kafka { topic with committed := topic.position } } :=
            remembers.repositioned is rfl rfl rfl
          exact moved.returned returned
        · cases steps
      · cases steps
  | reraise =>
      simp only [hostMachine] at steps
      split at steps
      · cases steps
      · rename_i is
        cases steps
        exact remembers.repositioned is rfl rfl rfl
  | rebalance =>
      simp only [hostMachine] at steps
      split at steps
      · cases steps
      · rename_i is
        cases steps
        exact remembers.repositioned is rfl rfl rfl

/-! ## Any run -/

/-- The two buses. -/
inductive BusKind
  | inMemory
  | kafka
deriving DecidableEq

/-- The bus before anything was published. -/
def BusKind.empty : BusKind → Bus Input Signal
  | .inMemory => .inMemory []
  | .kafka => .kafka {}

/-- Before the first life: nothing stored, nothing published. -/
def HostLife.fresh (config : EngineConfig State Input Signal Bytes) (kind : BusKind) :
    HostLife State Input Signal Bytes where
  hosted strategyId := { memory := (config.code strategyId).blank }
  bus := kind.empty

omit [DecidableEq Bytes] in
theorem fresh_remembers (config : EngineConfig State Input Signal Bytes) (kind : BusKind) :
    Remembers config (HostLife.fresh config kind) := by
  refine ⟨fun strategyId => .inl ⟨rfl, rfl⟩, fun running => (by cases running),
    fun sent member => (by cases member), ?_, trivial, fun topic _ busy => absurd rfl busy⟩
  cases kind with
  | inMemory =>
      intro message member
      cases member
  | kafka =>
      exact ⟨fun partition message member => (by cases member),
        fun _ message member => (by cases member)⟩

theorem remembers_run {moves : List (HostMove Input Signal)} (remembers : Remembers config life)
    (ran : (hostMachine config).run life moves = some after) : Remembers config after :=
  Machine.run_induct (Remembers config) remembers_step remembers ran

theorem sagas_grow_run {moves : List (HostMove Input Signal)}
    (ran : (hostMachine config).run life moves = some after) : life.sagas <+: after.sagas :=
  Machine.run_induct (fun other => life.sagas <+: other.sagas)
    (fun grown steps => grown.trans (sagas_grow steps)) (List.prefix_refl _) ran

omit [DecidableEq Bytes] in
/-- A saved signal's sender has a snapshot, of a state the sending callback is behind. -/
theorem Saved.snapshot {rows : StrategyId → SnapshotRow Input Bytes} {sent : Sent Input Signal}
    (saved : Saved config rows sent)
    (sound : RowSound (config.code sent.strategyId) (rows sent.strategyId)) :
    ∃ since, (rows sent.strategyId).data = some ((config.code sent.strategyId).snapshot
      ((config.code sent.strategyId).replay (sent.lived ++ since))) := by
  obtain ⟨since, whole⟩ := saved.row
  rcases sound with ⟨-, nothing⟩ | data
  · -- The sending callback is in the row, so the row is not empty.
    obtain ⟨earlier, call, lived, -⟩ := saved.genuine
    rw [nothing, lived] at whole
    simp at whole
  · exact ⟨since, by rw [whole, data]⟩

/-- **A strategy never forgets a signal it sent.**  When a saga was created for a
signal, the stored snapshot is, then and ever after, of a state that went through the
callback that sent it. -/
theorem signal_remembered {config : EngineConfig State Input Signal Bytes} {kind : BusKind}
    {before later : List (HostMove Input Signal)}
    {created last : HostLife State Input Signal Bytes} {sent : Sent Input Signal}
    (ran : (hostMachine config).run (HostLife.fresh config kind) before = some created)
    (saga : sent ∈ created.sagas)
    (goesOn : (hostMachine config).run created later = some last) :
    sent.Genuine config.code ∧
      ∃ since, (last.rows sent.strategyId).data = some ((config.code sent.strategyId).snapshot
        ((config.code sent.strategyId).replay (sent.lived ++ since))) := by
  have remembers := remembers_run (remembers_run (fresh_remembers config kind) ran) goesOn
  have saved := remembers.sagas sent ((sagas_grow_run goesOn).subset saga)
  exact ⟨saved.genuine, saved.snapshot (remembers.rows sent.strategyId)⟩

namespace Sample

/-- Counts the ticks it saw, and signals the count. -/
def counter : StrategyCode ℕ Unit ℕ ℕ where
  blank := 0
  callback state event _ := match event with
    | .tick _ => { state := state + 1, signals := [state] }
    | .orderEvent _ | .wake _ => { state := state }
  snapshot := id
  restore := id
  restores _ := rfl

def tally : StrategyId := ⟨"tally", by decide⟩

def oneCounter : EngineConfig ℕ Unit ℕ ℕ where
  code _ := counter
  symbols _ := ["SOL"]
  wakeMaxAgeNs _ := none
  tickStalenessNs := none
  handlers := [.engine, .strategy tally]

def solTick : Feed.MarketTick where
  tsEvent := 4
  tsInit := 4
  symbol := "SOL"
  price := 21
  size := 2
  aggressorSide := .buy
  tradeId := "t"
  seq := 1

/-- The wrapper's part of one tick, its one signal sent to the topic. -/
def onSolTick : List (HostMove Unit ℕ) :=
  [.fetch 0, .engine [] false .returned, .call (), .emit, .callEnds, .save, .flush 1]

/-- The first life ends between the flush and the commit, so the tick comes again. -/
def twice : List (HostMove Unit ℕ) :=
  [.boot, .start, .publish 0 (.routed (.tick solTick))] ++ onSolTick ++
    [.crash, .boot, .start] ++ onSolTick ++
    [.returns, .fetch 1, .engine [] true .returned]

theorem signal_remembered_twice : ∃ created last,
    (hostMachine oneCounter).run (HostLife.fresh oneCounter .kafka) twice = some created ∧
      (hostMachine oneCounter).run created [.crash, .boot, .start] = some last ∧
      created.sagas.map Sent.signal = [0] ∧
      ∀ sent ∈ created.sagas, ∃ since, (last.rows sent.strategyId).data =
        some (counter.replay (sent.lived ++ since)) := by
  have ended : ((hostMachine oneCounter).run (HostLife.fresh oneCounter .kafka)
      (twice ++ [.crash, .boot, .start])).isSome = true := by decide +kernel
  obtain ⟨last, whole⟩ := Option.isSome_iff_exists.mp ended
  obtain ⟨created, ran, goesOn⟩ := (Machine.run_append twice _).mp whole
  have sagas : ((hostMachine oneCounter).run (HostLife.fresh oneCounter .kafka) twice).map
      (fun life => life.sagas.map Sent.signal) = some [0] := by decide +kernel
  rw [ran] at sagas
  exact ⟨created, last, ran, goesOn, Option.some.inj sagas,
    fun sent member => (signal_remembered ran member goesOn).2⟩

end Sample

end Tickwright.Engine.Host
