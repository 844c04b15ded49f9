/-
# Engine.Life -- the engine as a machine: handlers, sends, crashes, restarts

A `Life` is a process beside the send it may be waiting in.  Bus events are
dispatched one at a time, so none is handled while a placement waits for its
send; the verbs that do not ride the bus (an account heal, a leftover move, the
operator's cancel) may run in that window.

A crash falls between two steps of a handler or between two handlers, and the
next life starts from `recover`.  Handlers that raise end the life, so their
label is not enabled; the crash at the raise is `crashIn`.

`step_steady` carries the agreement of `Engine.HandlerSync` over every label, so
`run_steady` gives it for every run of any length.
-/
import Tickwright.Engine.HandlerSync

namespace Tickwright.Engine

open Tickwright.Domain Tickwright.Theory Tickwright.Store

set_option autoImplicit false

/-- What arrives at the engine. -/
inductive Input
  | place (gates : Gates) (signal : PlaceSignal) (verdict : GuardDecision)
  | cancel (signal : CancelSignal)
  | cancelAll (signal : CancelAllSignal)
  | report (report : ExecutionReport)
  | funding (accrual : FundingAccrual)
  /-- An emitter makes its seq durable before it publishes. -/
  | emit (strategyId : StrategyId) (seq : ℕ)
  | operatorCancel (resting : List Resting)
  | heal (fills : List ReconciliationFill) (cash : Option CashCorrection)
      (snapshot : Option VenueAccountState)
  | leftover (symbol : Symbol)

/-- Whether the bus dispatches the input, one at a time. -/
def Input.onBus : Input → Bool
  | place .. | cancel _ | cancelAll _ | report _ | funding _ => true
  | emit .. | operatorCancel _ | heal .. | leftover _ => false

/-- A ledger verb's effects as a script. -/
def Script.ofVerb : Except Fault (List Effect) → Script
  | .error fault => Script.fail fault
  | .ok effects => { effects := effects }

/-- The script one input plays on a process. -/
def scriptOf (deriveCloid : SignalId → Cloid) (config : Config) (process : Process)
    (nowNs : Nanos) : Input → Script
  | .place gates signal verdict => onPlace deriveCloid gates process.memory signal verdict nowNs
  | .cancel signal => onCancel deriveCloid process.memory signal nowNs
  | .cancelAll signal => onCancelAll process.memory signal nowNs
  | .report report => onExecutionReport config process.memory process.store report nowNs
  | .funding accrual =>
      Script.ofVerb (checkpointFunding process.memory process.store accrual nowNs)
  | .emit strategyId seq => { effects := raiseSeq process.memory strategyId seq }
  | .operatorCancel resting => cancelForOperator process.memory resting nowNs
  | .heal fills cash snapshot =>
      Script.ofVerb (checkpointHeal config process.memory process.store fills cash snapshot nowNs)
  | .leftover symbol => Script.ofVerb (checkpointLeftover config process.memory symbol nowNs)

/-- A process beside the cloid whose send it waits in. -/
structure Life where
  process : Process
  sending : Option Cloid := none

/-- One step of a life, or of the life after it. -/
inductive Label
  /-- An input is handled to its end, or to its send. -/
  | handle (input : Input) (nowNs : Nanos)
  /-- The awaited send returns, and the row catches up. -/
  | sent (nowNs : Nanos)
  /-- The process dies between two events and a new one recovers. -/
  | crash (restartNs : Nanos)
  /-- The process dies inside a handler, after `steps` of its steps. -/
  | crashIn (input : Input) (nowNs : Nanos) (steps : ℕ) (restartNs : Nanos)

/-- A new process over what the old one left. -/
def restart (config : Config) (process : Process) (restartNs : Nanos) : Option Life :=
  match recover config process.store restartNs with
  | .error _ => none
  | .ok (memory, txns) =>
      some { process :=
        { process with memory := memory, store := txns.foldl Store.commit process.store } }

/-- Whether the input may be dispatched now. -/
def Life.takes (life : Life) (input : Input) : Bool := !input.onBus || life.sending.isNone

/-- The engine's machine. -/
def engine (deriveCloid : SignalId → Cloid) (config : Config) : Machine Life Label where
  step life
    | .handle input nowNs =>
        let script := scriptOf deriveCloid config life.process nowNs input
        if life.takes input ∧ script.fault = none then
          some { process := life.process.play script.effects
                 sending := script.awaiting.or life.sending }
        else none
    | .sent nowNs =>
        match life.sending with
        | none => none
        | some cloid =>
            some { process :=
              life.process.play (afterSend life.process.memory cloid nowNs).effects }
    | .crash restartNs => restart config life.process restartNs
    | .crashIn input nowNs steps restartNs =>
        if life.takes input then
          let script := scriptOf deriveCloid config life.process nowNs input
          restart config (life.process.play (script.effects.take steps)) restartNs
        else none

variable {deriveCloid : SignalId → Cloid} {config : Config}

/-! ## What every step keeps -/

/-- The process agrees with its rows, the cloid being sent aside, and that cloid
has a row. -/
structure Steady (config : Config) (life : Life) : Prop where
  synced : life.process.Synced config (fun c => life.sending = some c)
  row : ∀ c, life.sending = some c → (life.process.store.orders.get c).isSome = true

/-- With no send awaited, nothing is stale. -/
theorem Steady.idle {life : Life} (steady : Steady config life) (idle : life.sending = none) :
    life.process.Synced config (fun _ => False) := by
  refine ⟨steady.synced.orders.weaken fun c waiting => ?_, steady.synced.ledger⟩
  rw [idle] at waiting
  cases waiting

/-- A dispatched input finds nothing stale: the bus waits for the send. -/
theorem Steady.onBus {life : Life} {input : Input} (steady : Steady config life)
    (onBus : input.onBus = true) (taken : life.takes input = true) :
    life.process.Synced config (fun _ => False) := by
  simp only [Life.takes, onBus, Bool.not_true, Bool.false_or] at taken
  exact steady.idle (Option.isNone_iff_eq_none.mp taken)

/-- No effect drops a saga row. -/
theorem play_orders_isSome {process : Process} {cloid : Cloid} (effects : List Effect)
    (there : (process.store.orders.get cloid).isSome = true) :
    ((process.play effects).store.orders.get cloid).isSome = true := by
  induction effects generalizing process with
  | nil => exact there
  | cons effect rest ih =>
      apply ih
      cases effect with
      | write txn => exact Store.commit_orders_isSome txn there
      | memory _ | announce _ | place _ | cancel _ => exact there

theorem ofVerb_synced {process : Process} {stale : Cloid → Prop}
    {verb : Except Fault (List Effect)}
    (keeps : ∀ effects, verb = .ok effects → (process.play effects).Synced config stale)
    (clean : (Script.ofVerb verb).fault = none) :
    (process.play (Script.ofVerb verb).effects).Synced config stale := by
  cases verb with
  | error fault => cases clean
  | ok effects => exact keeps effects rfl

/-- **Every handler that does not raise leaves the process in sync**, the cloid
it sends aside. -/
theorem handle_synced {process : Process} {stale : Cloid → Prop} {input : Input} {nowNs : Nanos}
    (synced : process.Synced config stale)
    (clean : (scriptOf deriveCloid config process nowNs input).fault = none) :
    (process.play (scriptOf deriveCloid config process nowNs input).effects).Synced config
      (fun c => stale c ∨
        (scriptOf deriveCloid config process nowNs input).awaiting = some c) := by
  have widen : ∀ {effects : List Effect}, (process.play effects).Synced config stale →
      (process.play effects).Synced config (fun c => stale c ∨
        (scriptOf deriveCloid config process nowNs input).awaiting = some c) :=
    fun kept => ⟨kept.orders.weaken fun c h => Or.inl h, kept.ledger⟩
  cases input with
  | place gates signal verdict => exact synced.onPlace deriveCloid gates signal verdict clean
  | cancel signal => exact widen (synced.onCancel deriveCloid signal)
  | cancelAll signal => exact widen (synced.onCancelAll signal)
  | report report =>
      cases report with
      | status report => exact widen (synced.onStatus report)
      | fill report => exact widen (synced.onFill report clean)
      | refused cloid symbol => exact widen synced
  | funding accrual =>
      exact widen (ofVerb_synced (fun _ accrued => synced.checkpointFunding accrued) clean)
  | emit strategyId seq =>
      exact widen ⟨synced.orders.raiseSeq strategyId seq, synced.ledger.raiseSeq strategyId seq⟩
  | operatorCancel resting => exact widen (synced.cancelForOperator resting)
  | heal fills cash snapshot =>
      exact widen (ofVerb_synced (fun _ healed => synced.checkpointHeal healed) clean)
  | leftover symbol =>
      exact widen (ofVerb_synced (fun _ moved => synced.checkpointLeftover moved) clean)

/-- A restart over sound rows starts a steady life. -/
theorem restart_steady {process : Process} {restartNs : Nanos} {next : Life}
    (sound : Sound config process.store)
    (restarted : restart config process restartNs = some next) :
    Steady config next ∧ next.process.store = process.store ∧ next.sending = none := by
  obtain ⟨memory, recovery, synced⟩ := recover_of_sound sound restartNs
  simp only [restart, recovery] at restarted
  cases restarted
  exact ⟨⟨⟨synced.orders.weaken fun _ h => h.elim, synced.ledger⟩, nofun⟩, rfl, rfl⟩

/-- A store no order has reached, whose account row stands at its opening cash or
is paper's to seed. -/
structure Untraded (config : Config) (store : Store) : Prop where
  orders : store.orders = Dict.empty
  positions : store.positions = Dict.empty
  genesis : ∀ account, store.account = some account → account.cash = account.genesisCollateral
  opens : store.account = none → config.spec.declaresGenesis = true

/-- The rows a first life starts over. -/
structure Begun (store : Store) : Prop where
  orders : store.orders = Dict.empty
  positions : store.positions = Dict.empty
  genesis : ∃ account, store.account = some account ∧ account.cash = account.genesisCollateral

/-- The account paper seeds is one its own configuration may trade. -/
theorem tradable_seeded {config : Config} {store : Store} {tsNs : Nanos}
    (declared : config.spec.declaresGenesis = true)
    (seeded : store.account = some (Account.openAt config.spec tsNs)) :
    refuseDisagreement config store = none := by
  simp only [refuseDisagreement, seeded, Account.openAt]
  rw [if_neg]
  simp only [AccountSpec.declaresGenesis] at declared
  obtain ⟨genesis, there⟩ := Option.isSome_iff_exists.mp declared
  simp [there]

/-- **The first life over an untraded store is steady**, whether it found the
account row or seeded it. -/
theorem untraded_steady {process : Process} {startNs : Nanos} {first : Life}
    (untraded : Untraded config process.store)
    (begun : restart config process startNs = some first) :
    Steady config first ∧ Begun first.process.store := by
  have noOrder : ∀ c order, process.store.orders.get c = some order → False := by
    intro c order row
    rw [untraded.orders] at row
    cases row
  have noPosition : ∀ k position, process.store.positions.get k = some position → False := by
    intro k position row
    rw [untraded.positions] at row
    cases row
  cases there : process.store.account with
  | some account =>
      have tradable : refuseDisagreement config process.store = none := by
        simp only [restart, recover] at begun
        cases refused : refuseDisagreement config process.store with
        | none => rfl
        | some mismatch => rw [refused] at begun; cases begun
      have sound : Sound config process.store :=
        ⟨⟨account, there⟩, tradable, fun c order row => (noOrder c order row).elim,
          fun k position row => (noPosition k position row).elim⟩
      obtain ⟨steady, same, _⟩ := restart_steady sound begun
      refine ⟨steady, ?_⟩
      rw [same]
      exact ⟨untraded.orders, untraded.positions, account, there, untraded.genesis account there⟩
  | none =>
      have declared := untraded.opens there
      have tradable : refuseDisagreement config process.store = none := by
        simp only [refuseDisagreement, there, untraded.orders, declared]
        rfl
      simp only [restart, recover, tradable, there, declared, if_true] at begun
      cases begun
      have seeded : (process.store.writeAccount (Account.openAt config.spec startNs)).account =
          some (Account.openAt config.spec startNs) := by
        simp only [Store.writeAccount, there]
      refine ⟨⟨⟨?_, ?_⟩, fun c waiting => by cases waiting⟩, untraded.orders, untraded.positions,
        _, seeded, rfl⟩
      · have orders : (Cache.rebuild process.store).orders.Same process.store.orders :=
          Dict.arrange_same _ _
        refine ⟨fun c _ => orders c, fun c row => (congrArg Option.isSome (orders c)).trans row,
          fun c order row => (noOrder c order ((orders c).symm.trans row)).elim,
          fun c order row => (noOrder c order row).elim, fun _ => rfl⟩
      · refine ⟨seeded, tradable_seeded declared seeded, Filed.empty, ?_⟩
        intro k
        exact (congrArg (fun rows => Dict.get rows k) untraded.positions).symm

/-- The rows are sound after any prefix of any script. -/
theorem sound_take {process : Process} (sound : Sound config process.store)
    (effects : List Effect) (steps : ℕ) :
    Sound config (process.play (effects.take steps)).store :=
  exec_take_induct (fun p : Process => Sound config p.store) (fun _ e _ kept => kept.perform e)
    sound steps

theorem ofVerb_awaiting (verb : Except Fault (List Effect)) :
    (Script.ofVerb verb).awaiting = none := by
  cases verb <;> rfl

/-- Only a placement waits for a send, and only once its `PENDING` row is
written. -/
theorem awaiting_place {process : Process} {input : Input} {nowNs : Nanos} {cloid : Cloid}
    (awaiting : (scriptOf deriveCloid config process nowNs input).awaiting = some cloid) :
    input.onBus = true ∧
    ((process.play (scriptOf deriveCloid config process nowNs input).effects).store.orders.get
      cloid).isSome = true := by
  cases input with
  | place gates signal verdict =>
      refine ⟨rfl, ?_⟩
      simp only [scriptOf, onPlace] at awaiting ⊢
      split at awaiting
      · cases awaiting
      · split at awaiting
        · cases awaiting
        · simp only [placeOrder] at awaiting ⊢
          split at awaiting
          · cases awaiting
          · cases awaiting
            exact congrArg Option.isSome (Dict.get_set_self _ _ _)
  | cancel signal =>
      simp only [scriptOf, onCancel] at awaiting
      split at awaiting
      · cases awaiting
      · split at awaiting <;> cases awaiting
  | report report =>
      cases report with
      | status report =>
          simp only [scriptOf, onExecutionReport, onStatus] at awaiting
          split at awaiting
          · cases awaiting
          · split at awaiting
            · cases awaiting
            · split at awaiting
              · cases awaiting
              · split at awaiting <;> cases awaiting
      | fill report =>
          simp only [scriptOf, onExecutionReport, onFill] at awaiting
          split at awaiting
          · cases awaiting
          · split at awaiting
            · cases awaiting
            · cases awaiting
            · split at awaiting <;> cases awaiting
      | refused cloid symbol => cases awaiting
  | funding _ | heal _ _ _ | leftover _ =>
      simp only [scriptOf, ofVerb_awaiting] at awaiting
      cases awaiting
  | cancelAll _ | emit _ _ | operatorCancel _ => cases awaiting

/-- **Every step of the engine keeps it steady.** -/
theorem step_steady {life next : Life} {label : Label} (steady : Steady config life)
    (stepped : (engine deriveCloid config).step life label = some next) : Steady config next := by
  cases label with
  | handle input nowNs =>
      simp only [engine] at stepped
      split at stepped
      · rename_i enabled
        cases stepped
        have played := handle_synced steady.synced enabled.2
        cases awaiting : (scriptOf deriveCloid config life.process nowNs input).awaiting with
        | none =>
            rw [awaiting] at played
            refine ⟨⟨played.orders.weaken fun c h => h.elim id nofun, played.ledger⟩, ?_⟩
            intro c waiting
            exact play_orders_isSome _ (steady.row c waiting)
        | some cloid =>
            -- A placement is dispatched by the bus, so no other send was open.
            obtain ⟨onBus, row⟩ := awaiting_place awaiting
            have idle : life.sending = none := by
              have taken := enabled.1
              simp only [Life.takes, onBus, Bool.not_true, Bool.false_or] at taken
              exact Option.isNone_iff_eq_none.mp taken
            rw [awaiting] at played
            refine ⟨⟨played.orders.weaken fun c h => ?_, played.ledger⟩, ?_⟩
            · rcases h with h | h
              · rw [idle] at h; cases h
              · exact h
            · intro c waiting
              cases waiting
              exact row
      · cases stepped
  | sent nowNs =>
      simp only [engine] at stepped
      split at stepped
      · cases stepped
      · rename_i cloid waiting
        cases stepped
        have synced := steady.synced
        simp only [waiting] at synced
        have played := synced.afterSend nowNs (steady.row cloid waiting)
        exact ⟨⟨played.orders.weaken fun _ h => h.elim, played.ledger⟩, nofun⟩
  | crash restartNs => exact (restart_steady steady.synced.sound stepped).1
  | crashIn input nowNs steps restartNs =>
      simp only [engine] at stepped
      split at stepped
      · exact (restart_steady (sound_take steady.synced.sound _ steps) stepped).1
      · cases stepped

/-- **Every run of the engine keeps it steady**, whatever is handled, in whatever
order, with crashes anywhere. -/
theorem run_steady {life next : Life} {labels : List Label} (steady : Steady config life)
    (ran : (engine deriveCloid config).run life labels = some next) : Steady config next :=
  Machine.run_induct (Steady config) (fun kept stepped => step_steady kept stepped) steady ran

/-! ## One order's life on paper -/

namespace Sample

def momentum : StrategyId := ⟨"momentum", by decide⟩

def paper : Config where
  spec := { accountId := "paper", genesisCollateral := some 1000 }

/-- Cloids by sequence number. -/
def cloidOf (signalId : SignalId) : Cloid := if signalId.seq = 1 then "0x01" else "0x02"

/-- A buy of ten at two. -/
def buy : PlaceSignal where
  strategyId := momentum
  symbol := "BTC"
  seq := 1
  side := .buy
  quantity := 10
  orderType := .limit
  timeInForce := .gtc
  price := some 2

def approval : GuardDecision := .approved 10 (some 2)

/-- The venue's acknowledgement, with its order id. -/
def live : OrderStatusReport :=
  { cloid := "0x01", symbol := "BTC", status := .live, venueOid := some "77" }

/-- Four of the ten, at a fee of one. -/
def fourFilled : FillReport :=
  { cloid := "0x01", symbol := "BTC", tradeId := "t1", quantity := 4, price := 2, fee := 1 }

/-- Nothing sent, announced or stored, and a memory no recovery has filled. -/
def unstarted : Process where
  memory := ⟨{}, Portfolio.openAt paper 0⟩
  store := Store.fresh

theorem unstarted_untraded : Untraded paper unstarted.store := ⟨rfl, rfl, nofun, fun _ => rfl⟩

/-- Placed and sent, acknowledged, a fill that reaches its transaction as the
process dies, and the fill again in the next life. -/
def labels : List Label :=
  [.handle (.place {} buy approval) 1, .sent 2, .handle (.report (.status live)) 3,
    .crashIn (.report (.fill fourFilled)) 4 3 5, .handle (.report (.fill fourFilled)) 6]

end Sample

end Tickwright.Engine
