/-
# Engine.Runner -- one engine run, from the store's lock to the exit code

`runner` is the engine of `Engine.Life` under its host: the lock, an exit run's admission,
the recovery, the buses' and the venue's start, the two proofs of the startup barrier with
the waits between its attempts, the strategies, the feed or the operator's job, and the
reverse shutdown, graceful or after a fault.  Each call may return or raise; records of an
earlier life may be handled from the moment the handlers are subscribed; a handler may be
cut short; a stop may be requested at any time; and the process may die at any time, after
which the next one runs over the same store.  What an operator's job calls itself is in
`Engine.ExitRun`: that it starts the feed for its own symbols is no act here.

`acts` is what the runs did, newest first.  `Turn` lists what a step inside a life can do
(`step_turn`), and an invariant of the run is one of its cases (`run_induct`,
`life_induct`).
-/
import Tickwright.Engine.Silent

namespace Tickwright.Engine

open Tickwright.Domain Tickwright.Theory Tickwright.Store

set_option autoImplicit false

/-! ## What a run does -/

namespace Runner

/-- The barrier's steps, in order. -/
inductive Proof
  /-- `_materialise_account`. -/
  | account
  /-- `reconcile_startup`. -/
  | sagas
deriving DecidableEq

/-- The reverse shutdown's steps. -/
inductive Hook
  | feedStop
  | reconcileStop
  | exitJobStop
  | exchangeStop
  | busDrain
  | hostStop
  | busClose
  | storeClose
deriving DecidableEq

/-- What the host calls. -/
inductive Call
  | lock
  | admission
  | recover
  | busStart
  | exchangeStart
  | hostStart
  | feedStart
  | job
  | hook (hook : Hook)
deriving DecidableEq

/-- What one step did. -/
inductive Act
  /-- A process begins. -/
  | boots
  | calls (call : Call)
  | proved (proof : Proof)
  | froze (proof : Proof)
  /-- The barrier waits before its next attempt. -/
  | waits (delayNs : Nanos)
  /-- A handler sent the venue an order. -/
  | sends (input : Input) (request : PlaceOrder)
  /-- The run faulted, on a boot refusal or on something else. -/
  | faulted (refusal : Bool)
  | ends (code : ℕ)

/-- How a job ended. -/
inductive ExitStatus
  | done
  | stopped
deriving DecidableEq

/-- One barrier's window and its next wait. -/
structure Pace where
  deadlineNs : Nanos
  delayNs : Nanos
deriving DecidableEq

/-- What the run waits for. -/
inductive Phase
  | locking
  | admitting
  | recovering
  | busStarting
  | exchangeStarting
  | proving (pace : Pace) (proof : Proof)
  | backingOff (pace : Pace) (untilNs : Nanos)
  | hosting
  | feeding
  | running
  /-- A hook of the graceful shutdown, and what is behind it. -/
  | stopping (behind : List Hook)
  /-- A hook of the shutdown after a fault. -/
  | salvaging (code : ℕ) (behind : List Hook)
  /-- The store's own connection, of a run that never booted. -/
  | closing (code : ℕ)
  | ended (code : ℕ)
deriving DecidableEq

end Runner

structure RunnerConfig where
  deriveCloid : SignalId → Cloid
  ledger : Config
  /-- The run has an operator's job in place of strategies. -/
  exitRun : Bool := false
  /-- `startup_reconciliation_timeout_seconds`. -/
  timeoutNs : Nanos := 60000000000

/-- The host mid-run. -/
structure Runner where
  life : Life
  phase : Runner.Phase := .locking
  nowNs : Nanos
  stopRequested : Bool := false
  accountOpen : Bool := false
  barrierCleared : Bool := false
  jobStarted : Bool := false
  outcome : Option Runner.ExitStatus := none
  acts : List Runner.Act

namespace Runner

/-- `_INITIAL_BACKOFF_SECONDS` and `_MAX_BACKOFF_SECONDS`. -/
def initialBackoffNs : Nanos := 1000000000

def maxBackoffNs : Nanos := 30000000000

/-- `_teardown_steps`: an exit run never started its strategies, and snapshots none. -/
def teardown (exitRun : Bool) : List Hook :=
  [.feedStop, .reconcileStop, .exitJobStop, .exchangeStop, .busDrain] ++
    (if exitRun then [] else [.hostStop]) ++ [.busClose, .storeClose]

/-- A new process over what `life` left. -/
def boot (life : Life) (nowNs : Nanos) (acts : List Act) : Runner where
  life := { process := life.process }
  nowNs := nowNs
  acts := .calls .lock :: .boots :: acts

/-- Make a call, and wait for it. -/
def calls (runner : Runner) (call : Call) (phase : Phase) : Runner :=
  { runner with phase := phase, acts := .calls call :: runner.acts }

def ends (runner : Runner) (code : ℕ) : Runner :=
  { runner with phase := .ended code, acts := .ends code :: runner.acts }

/-- The code of a run whose shutdown went through. -/
def gracefulCode (config : RunnerConfig) (runner : Runner) : ℕ :=
  if config.exitRun = true ∧ runner.outcome ≠ some .done then 1 else 0

/-- The next hook of the graceful shutdown. -/
def stops (config : RunnerConfig) (runner : Runner) : List Hook → Runner
  | [] => runner.ends (runner.gracefulCode config)
  | hook :: behind => runner.calls (.hook hook) (.stopping behind)

/-- The next hook after a fault. -/
def salvages (runner : Runner) (code : ℕ) : List Hook → Runner
  | [] => runner.ends code
  | hook :: behind => runner.calls (.hook hook) (.salvaging code behind)

/-- The run faults, and its shutdown starts from the top. -/
def faults (config : RunnerConfig) (runner : Runner) (refusal : Bool) : Runner :=
  { runner with acts := .faulted refusal :: runner.acts }.salvages (if refusal then 2 else 1)
    (teardown config.exitRun)

/-- `_close_before_boot`. -/
def closes (runner : Runner) (code : ℕ) : Runner :=
  { runner with acts := .faulted false :: runner.acts }.calls (.hook .storeClose) (.closing code)

/-- `_fault_before_boot`: an exit run that never booted moved nothing. -/
def unbootedCode (config : RunnerConfig) : ℕ := if config.exitRun then 2 else 1

/-- An attempt froze: fault if the window is gone, else wait and double the wait. -/
def freezes (config : RunnerConfig) (runner : Runner) (pace : Pace) (proof : Proof) : Runner :=
  let froze := { runner with acts := .froze proof :: runner.acts }
  if pace.deadlineNs ≤ runner.nowNs then froze.faults config false
  else
    { froze with
      phase := .backingOff { pace with delayNs := min (2 * pace.delayNs) maxBackoffNs }
        (runner.nowNs + pace.delayNs)
      acts := .waits pace.delayNs :: froze.acts }

/-- A proof cleared, and `phase` is next. -/
def proves (runner : Runner) (proof : Proof) (phase : Phase) : Runner :=
  { runner with phase := phase, acts := .proved proof :: runner.acts }

/-- The genesis row the venue's account implies, and the ledger opened on it. -/
def materialise (config : Config) (memory : Memory) (state : VenueAccountState)
    (asOfTsNs nowNs : Nanos) : List Effect :=
  let cash := venueCash state
  let account : Account := ⟨config.spec.accountId, cash, asOfTsNs, cash⟩
  [.write (.checkpointLedger { account := account, tsNs := nowNs }),
    .memory { memory with
      portfolio := { memory.portfolio with account := account, opened := true } }]

/-- Whether the bus has the handlers, and the process its memory. -/
def subscribed (runner : Runner) : Bool :=
  match runner.phase with
  | .locking | .admitting | .recovering | .closing _ | .ended _ => false
  | .busStarting | .exchangeStarting | .proving .. | .backingOff .. | .hosting | .feeding
  | .running | .stopping _ | .salvaging .. => true

/-- Whether the task group is open. -/
def supervises (runner : Runner) : Bool :=
  match runner.phase with
  | .feeding | .running | .stopping _ => true
  | _ => false

/-- Whether the job still runs: the shutdown ends it in its turn. -/
def jobRuns (runner : Runner) : Bool :=
  runner.jobStarted && runner.outcome.isNone &&
    match runner.phase with
    | .running => true
    | .stopping behind => decide (Hook.exitJobStop ∈ behind)
    | _ => false

/-- Whether a handler may begin now.  The saga takes a signal at the gates as they stand;
fills and funding wait for the account row; the rest is the strategies', the cadences' and
the job's, which start behind the barrier. -/
def takes (config : RunnerConfig) (runner : Runner) (input : Input) : Bool :=
  runner.subscribed && runner.life.takes input &&
    match input with
    | .place gates _ _ =>
        gates.barrierCleared == runner.barrierCleared && gates.exitRun == config.exitRun
    | .cancel _ | .cancelAll _ => true
    | .report _ | .funding _ => runner.accountOpen
    | .emit .. | .heal .. => runner.barrierCleared
    | .operatorCancel _ | .leftover _ => runner.jobStarted

/-- The life after a handler, or a part of one. -/
def plays (runner : Runner) (input : Input) (life : Life) : Runner :=
  { runner with
    life := life
    acts := ((life.process.placed.drop runner.life.process.placed.length).map
      (.sends input)).reverse ++ runner.acts }

/-- One step of the host, or of what runs beside it. -/
inductive Move
  /-- The call returns. -/
  | returns
  /-- The call raises, a boot refusal or something else. -/
  | raises (refusal : Bool)
  /-- Another process holds the lock. -/
  | held
  /-- The job refuses the store. -/
  | refuses
  /-- The venue answers the account read, if one is owed. -/
  | materialises (answer : Option (VenueAccountState × Nanos))
  /-- The startup pass ends. -/
  | rebuilds (proved : Bool)
  | wakes
  | advances (nowNs : Nanos)
  | requestsStop
  | stopSeen
  | startsJob
  | jobReturns (status : ExitStatus)
  /-- A supervised task raises. -/
  | taskRaises (refusal : Bool)
  | hears (input : Input)
  /-- An awaited send returns. -/
  | sent
  /-- A handler is cut short, by a raise or a cancel, after `steps` of its steps. -/
  | cuts (input : Input) (steps : ℕ)
  /-- An awaited send is. -/
  | cutsSend
  | dies

/-- What follows a call that returned. -/
def returned (config : RunnerConfig) (runner : Runner) : Option Runner :=
  match runner.phase with
  | .locking =>
      if config.exitRun then some (runner.calls .admission .admitting)
      else some (runner.calls .recover .recovering)
  | .admitting => some (runner.calls .recover .recovering)
  | .recovering =>
      match restart config.ledger runner.life.process runner.nowNs with
      | none => some (runner.faults config true)
      | some life => some ({ runner with life := life }.calls .busStart .busStarting)
  | .busStarting => some (runner.calls .exchangeStart .exchangeStarting)
  | .exchangeStarting =>
      some { runner with
        phase := .proving ⟨runner.nowNs + config.timeoutNs, initialBackoffNs⟩ .account }
  | .hosting => some (runner.calls .feedStart .feeding)
  | .feeding => some { runner with phase := .running }
  | .stopping behind => some (runner.stops config behind)
  | .salvaging code behind => some (runner.salvages code behind)
  | .closing code => some (runner.ends code)
  | .proving .. | .backingOff .. | .running | .ended _ => none

/-- What follows a call that raised. -/
def raised (config : RunnerConfig) (runner : Runner) (refusal : Bool) : Option Runner :=
  match runner.phase with
  | .locking | .admitting => some (runner.closes (unbootedCode config))
  | .recovering | .busStarting | .exchangeStarting | .proving .. | .hosting | .feeding
  | .stopping _ => some (runner.faults config refusal)
  | .salvaging code behind => some (runner.salvages code behind)
  | .closing code => some (runner.ends code)
  | .backingOff .. | .running | .ended _ => none

/-- The barrier's first step: a read is owed only while the ledger is not open. -/
def accountProved (config : RunnerConfig) (runner : Runner)
    (answer : Option (VenueAccountState × Nanos)) : Option Runner :=
  match runner.phase with
  | .proving pace .account =>
      if isOpened runner.life.process.memory runner.life.process.store then
        some ({ runner with accountOpen := true }.proves .account (.proving pace .sagas))
      else
        match answer with
        | none => some (runner.freezes config pace .account)
        | some (state, asOfTsNs) =>
            let opened := runner.life.process.play
              (materialise config.ledger runner.life.process.memory state asOfTsNs runner.nowNs)
            some ({ runner with
              life := { runner.life with process := opened }
              accountOpen := true }.proves .account (.proving pace .sagas))
  | _ => none

/-- The barrier's second step, and what opens behind the barrier. -/
def sagasProved (config : RunnerConfig) (runner : Runner) (proved : Bool) : Option Runner :=
  match runner.phase with
  | .proving pace .sagas =>
      if proved then
        let cleared := { runner with barrierCleared := true }
        if config.exitRun then some (cleared.proves .sagas .running)
        else some ((cleared.proves .sagas .hosting).calls .hostStart .hosting)
      else some (runner.freezes config pace .sagas)
  | _ => none

end Runner

open Runner in
/-- **The engine under its host.** -/
def runner (config : RunnerConfig) : Machine Runner Runner.Move where
  step runner
    | .returns => runner.returned config
    | .raises refusal => runner.raised config refusal
    | .held => if runner.phase = .locking then some (runner.closes (unbootedCode config)) else none
    | .refuses => if runner.phase = .admitting then some (runner.closes 2) else none
    | .materialises answer => runner.accountProved config answer
    | .rebuilds proved => runner.sagasProved config proved
    | .wakes =>
        match runner.phase with
        | .backingOff pace untilNs =>
            if untilNs ≤ runner.nowNs then some { runner with phase := .proving pace .account }
            else none
        | _ => none
    | .advances nowNs =>
        if runner.nowNs ≤ nowNs then some { runner with nowNs := nowNs } else none
    | .requestsStop => some { runner with stopRequested := true }
    | .stopSeen =>
        if runner.phase = .running ∧ runner.stopRequested = true then
          some (runner.stops config (teardown config.exitRun))
        else none
    | .startsJob =>
        -- A signal during boot means the job never starts.
        if runner.phase = .running ∧ config.exitRun = true ∧ runner.jobStarted = false ∧
            runner.stopRequested = false then
          some ({ runner with jobStarted := true }.calls .job .running)
        else none
    | .jobReturns status =>
        if runner.jobRuns then
          some { runner with outcome := some status, stopRequested := true }
        else none
    | .taskRaises refusal =>
        if runner.supervises then some (runner.faults config refusal) else none
    | .hears input =>
        if runner.takes config input then
          ((engine config.deriveCloid config.ledger).step runner.life
            (.handle input runner.nowNs)).map (runner.plays input)
        else none
    | .sent =>
        if runner.subscribed then
          ((engine config.deriveCloid config.ledger).step runner.life (.sent runner.nowNs)).map
            fun life => { runner with life := life }
        else none
    | .cuts input steps =>
        if runner.takes config input then
          let script := scriptOf config.deriveCloid config.ledger runner.life.process runner.nowNs
            input
          some (runner.plays input
            { runner.life with process := runner.life.process.play (script.effects.take steps) })
        else none
    | .cutsSend => some { runner with life := { runner.life with sending := none } }
    | .dies => some (boot runner.life runner.nowNs runner.acts)

namespace Runner

/-! ## What a step can do -/

/-- Whether a call whose raise faults the run is awaited. -/
def Phase.faultable : Phase → Bool
  | .recovering | .busStarting | .exchangeStarting | .proving .. | .hosting | .feeding | .running
  | .stopping _ => true
  | _ => false

/-- One step inside a life, by what it does. -/
inductive Turn (config : RunnerConfig) (runner : Runner) : Runner → Prop
  | idles {life : Life} {nowNs : Nanos} {stopRequested : Bool} (later : runner.nowNs ≤ nowNs)
      (still : runner.subscribed = false → life.process.store = runner.life.process.store)
      (unsent : life.process.placed = runner.life.process.placed) :
      Turn config runner
        { runner with life := life, nowNs := nowNs, stopRequested := stopRequested }
  | jobEnds {status : ExitStatus} (runs : runner.jobRuns = true) :
      Turn config runner { runner with outcome := some status, stopRequested := true }
  | plays {input : Input} {life : Life} {steps : ℕ} (taken : runner.takes config input = true)
      (part : life.process = runner.life.process.play
        ((scriptOf config.deriveCloid config.ledger runner.life.process runner.nowNs
          input).effects.take steps)) :
      Turn config runner (runner.plays input life)
  | asks (at_ : runner.phase = .locking) (exits : config.exitRun = true) :
      Turn config runner (runner.calls .admission .admitting)
  | recovers (at_ : runner.phase = .locking ∨ runner.phase = .admitting) :
      Turn config runner (runner.calls .recover .recovering)
  | recovered {life : Life} (at_ : runner.phase = .recovering)
      (unsent : life.process.placed = runner.life.process.placed) :
      Turn config runner ({ runner with life := life }.calls .busStart .busStarting)
  | busStarted (at_ : runner.phase = .busStarting) :
      Turn config runner (runner.calls .exchangeStart .exchangeStarting)
  | exchangeStarted (at_ : runner.phase = .exchangeStarting) :
      Turn config runner { runner with
        phase := .proving ⟨runner.nowNs + config.timeoutNs, initialBackoffNs⟩ .account }
  | wakes {pace : Pace} {untilNs : Nanos} (at_ : runner.phase = .backingOff pace untilNs)
      (due : untilNs ≤ runner.nowNs) :
      Turn config runner { runner with phase := .proving pace .account }
  | account {pace : Pace} {process : Process} (at_ : runner.phase = .proving pace .account)
      (unsent : process.placed = runner.life.process.placed) :
      Turn config runner ({ runner with
        life := { runner.life with process := process }
        accountOpen := true }.proves .account (.proving pace .sagas))
  | clears {pace : Pace} (at_ : runner.phase = .proving pace .sagas)
      (exits : config.exitRun = true) :
      Turn config runner ({ runner with barrierCleared := true }.proves .sagas .running)
  | hosts {pace : Pace} (at_ : runner.phase = .proving pace .sagas)
      (trades : config.exitRun = false) :
      Turn config runner (({ runner with barrierCleared := true }.proves .sagas .hosting).calls
        .hostStart .hosting)
  | waits {pace : Pace} {proof : Proof} (at_ : runner.phase = .proving pace proof)
      (window : runner.nowNs < pace.deadlineNs) :
      Turn config runner { runner with
        phase := .backingOff { pace with delayNs := min (2 * pace.delayNs) maxBackoffNs }
          (runner.nowNs + pace.delayNs)
        acts := .waits pace.delayNs :: .froze proof :: runner.acts }
  | gaveUp {pace : Pace} {proof : Proof} (at_ : runner.phase = .proving pace proof)
      (spent : pace.deadlineNs ≤ runner.nowNs) :
      Turn config runner ({ runner with acts := .froze proof :: runner.acts }.faults config false)
  | hosted (at_ : runner.phase = .hosting) :
      Turn config runner (runner.calls .feedStart .feeding)
  | fed (at_ : runner.phase = .feeding) : Turn config runner { runner with phase := .running }
  | job (at_ : runner.phase = .running) (exits : config.exitRun = true) :
      Turn config runner ({ runner with jobStarted := true }.calls .job .running)
  | closes {code : ℕ} (at_ : runner.phase = .locking ∨ runner.phase = .admitting)
      (failed : code ≠ 0) : Turn config runner (runner.closes code)
  | faults {refusal : Bool} (at_ : runner.phase.faultable = true) :
      Turn config runner (runner.faults config refusal)
  | stops (at_ : runner.phase = .running) :
      Turn config runner (runner.stops config (teardown config.exitRun))
  | stopsNext {behind : List Hook} (at_ : runner.phase = .stopping behind) :
      Turn config runner (runner.stops config behind)
  | salvagesNext {code : ℕ} {behind : List Hook} (at_ : runner.phase = .salvaging code behind) :
      Turn config runner (runner.salvages code behind)
  | closed {code : ℕ} (at_ : runner.phase = .closing code) : Turn config runner (runner.ends code)

variable {config : RunnerConfig} {host after : Runner}

theorem freezes_turn {pace : Pace} {proof : Proof} (at_ : host.phase = .proving pace proof) :
    Turn config host (host.freezes config pace proof) := by
  unfold freezes
  split
  · rename_i spent
    exact .gaveUp at_ spent
  · rename_i window
    exact .waits at_ (not_le.mp window)

theorem returned_turn (returned : host.returned config = some after) : Turn config host after := by
  unfold Runner.returned at returned
  split at returned
  · rename_i at_
    split at returned <;> cases returned
    · rename_i exits
      exact .asks at_ exits
    · exact .recovers (Or.inl at_)
  · rename_i at_
    cases returned
    exact .recovers (Or.inr at_)
  · rename_i at_
    split at returned
    · cases returned
      exact .faults (by rw [at_]; rfl)
    · rename_i life begun
      cases returned
      refine .recovered at_ ?_
      unfold restart at begun
      split at begun <;> cases begun
      rfl
  · rename_i at_
    cases returned
    exact .busStarted at_
  · rename_i at_
    cases returned
    exact .exchangeStarted at_
  · rename_i at_
    cases returned
    exact .hosted at_
  · rename_i at_
    cases returned
    exact .fed at_
  · rename_i at_
    cases returned
    exact .stopsNext at_
  · rename_i at_
    cases returned
    exact .salvagesNext at_
  · rename_i at_
    cases returned
    exact .closed at_
  all_goals cases returned

theorem unbootedCode_ne : unbootedCode config ≠ 0 := by
  unfold unbootedCode
  split <;> omega

theorem raised_turn {refusal : Bool} (raised : host.raised config refusal = some after) :
    Turn config host after := by
  unfold Runner.raised at raised
  split at raised
  case h_1 at_ =>
    cases raised
    exact .closes (Or.inl at_) unbootedCode_ne
  case h_2 at_ =>
    cases raised
    exact .closes (Or.inr at_) unbootedCode_ne
  case h_10 at_ =>
    cases raised
    exact .salvagesNext at_
  case h_11 at_ =>
    cases raised
    exact .closed at_
  case h_12 => cases raised
  case h_13 => cases raised
  case h_14 => cases raised
  all_goals
    rename_i at_
    cases raised
    exact .faults (by rw [at_]; rfl)

theorem accountProved_turn {answer : Option (VenueAccountState × Nanos)}
    (proved : host.accountProved config answer = some after) : Turn config host after := by
  unfold accountProved at proved
  split at proved
  · rename_i at_
    split at proved
    · cases proved
      exact .account at_ rfl
    · split at proved
      · cases proved
        exact freezes_turn at_
      · cases proved
        exact .account at_ rfl
  · cases proved

theorem sagasProved_turn {proved : Bool} (cleared : host.sagasProved config proved = some after) :
    Turn config host after := by
  unfold sagasProved at cleared
  split at cleared
  · rename_i at_
    split at cleared
    · split at cleared
      · rename_i exits
        cases cleared
        exact .clears at_ exits
      · rename_i trades
        cases cleared
        exact .hosts at_ (Bool.eq_false_iff.mpr trades)
    · cases cleared
      exact freezes_turn at_
  · cases cleared

/-- What a handler plays to its end is a part of its script. -/
theorem handled_part {life : Life} {input : Input}
    (handled : (engine config.deriveCloid config.ledger).step host.life
      (.handle input host.nowNs) = some life) :
    ∃ steps, life.process = host.life.process.play
      ((scriptOf config.deriveCloid config.ledger host.life.process host.nowNs
        input).effects.take steps) := by
  simp only [engine] at handled
  split at handled
  · cases handled
    exact ⟨_, by rw [List.take_length]⟩
  · cases handled

/-- **Every step of a life is one of these.** -/
theorem step_turn {move : Move} (alive : move ≠ .dies)
    (stepped : (runner config).step host move = some after) : Turn config host after := by
  cases move with
  | returns => exact returned_turn stepped
  | raises refusal => exact raised_turn stepped
  | held =>
      simp only [runner] at stepped
      split at stepped <;> cases stepped
      rename_i at_
      exact .closes (Or.inl at_) unbootedCode_ne
  | refuses =>
      simp only [runner] at stepped
      split at stepped <;> cases stepped
      rename_i at_
      exact .closes (Or.inr at_) (by omega)
  | materialises answer => exact accountProved_turn stepped
  | rebuilds proved => exact sagasProved_turn stepped
  | wakes =>
      simp only [runner] at stepped
      split at stepped
      · rename_i at_
        split at stepped <;> cases stepped
        rename_i due
        exact .wakes at_ due
      · cases stepped
  | advances nowNs =>
      simp only [runner] at stepped
      split at stepped <;> cases stepped
      rename_i later
      exact .idles later (fun _ => rfl) rfl
  | requestsStop =>
      cases stepped
      exact .idles le_rfl (fun _ => rfl) rfl
  | stopSeen =>
      simp only [runner] at stepped
      split at stepped <;> cases stepped
      rename_i seen
      exact .stops seen.1
  | startsJob =>
      simp only [runner] at stepped
      split at stepped <;> cases stepped
      rename_i starts
      exact .job starts.1 starts.2.1
  | jobReturns status =>
      simp only [runner] at stepped
      split at stepped <;> cases stepped
      rename_i runs
      exact .jobEnds runs
  | taskRaises refusal =>
      simp only [runner] at stepped
      split at stepped <;> cases stepped
      rename_i open_
      refine .faults ?_
      unfold supervises at open_
      split at open_
      case h_4 => cases open_
      all_goals
        rename_i at_
        rw [at_]
        rfl
  | hears input =>
      simp only [runner] at stepped
      split at stepped
      · rename_i taken
        obtain ⟨life, handled, rfl⟩ := Option.map_eq_some_iff.mp stepped
        obtain ⟨steps, part⟩ := handled_part handled
        exact .plays taken part
      · cases stepped
  | sent =>
      simp only [runner] at stepped
      split at stepped
      · rename_i listens
        obtain ⟨life, sent, rfl⟩ := Option.map_eq_some_iff.mp stepped
        refine .idles le_rfl (fun deaf => ?_) ?_
        · rw [listens] at deaf
          cases deaf
        · simp only [engine] at sent
          split at sent
          · cases sent
          · cases sent
            simp only [afterSend]
            split
            · rfl
            · exact (silent_checkpoint _ _ _).placed _
      · cases stepped
  | cuts input steps =>
      simp only [runner] at stepped
      split at stepped <;> cases stepped
      rename_i taken
      exact .plays taken rfl
  | cutsSend =>
      cases stepped
      exact .idles le_rfl (fun _ => rfl) rfl
  | dies => exact absurd rfl alive

/-- An act of the shutdown. -/
def Act.shuts : Act → Bool
  | .calls (.hook _) | .faulted _ | .ends _ => true
  | _ => false

/-- Whether the shutdown has begun. -/
def Phase.late : Phase → Bool
  | .stopping _ | .salvaging .. | .closing _ | .ended _ => true
  | _ => false

/-- A step into the shutdown, or of it. -/
structure Shuts (host after : Runner) : Prop where
  acts : ∃ new, after.acts = new ++ host.acts ∧ ∀ act ∈ new, act.shuts = true
  late : after.phase.late = true
  barrierCleared : after.barrierCleared = host.barrierCleared
  placed : after.life.process.placed = host.life.process.placed

theorem shuts_cons {act : Act} (kind : act.shuts = true) {phase : Phase}
    (late : phase.late = true) :
    Shuts host { host with phase := phase, acts := act :: host.acts } :=
  ⟨⟨[act], rfl, fun _ member => List.mem_singleton.mp member ▸ kind⟩, late, rfl, rfl⟩

theorem shuts_ends (code : ℕ) : Shuts host (host.ends code) := shuts_cons rfl rfl

theorem shuts_stops (hooks : List Hook) : Shuts host (host.stops config hooks) := by
  cases hooks with
  | nil => exact shuts_ends _
  | cons hook behind => exact shuts_cons rfl rfl

theorem shuts_salvages (code : ℕ) (hooks : List Hook) : Shuts host (host.salvages code hooks) := by
  cases hooks with
  | nil => exact shuts_ends _
  | cons hook behind => exact shuts_cons rfl rfl

/-- Behind one more act of the shutdown. -/
theorem Shuts.behind {act : Act} (kind : act.shuts = true)
    (shuts : Shuts { host with acts := act :: host.acts } after) : Shuts host after := by
  obtain ⟨new, acts, all⟩ := shuts.acts
  refine ⟨⟨new ++ [act], by rw [acts, List.append_assoc]; rfl, fun other member => ?_⟩,
    shuts.late, shuts.barrierCleared, shuts.placed⟩
  rcases List.mem_append.mp member with was | is
  · exact all other was
  · exact List.mem_singleton.mp is ▸ kind

theorem shuts_faults (refusal : Bool) : Shuts host (host.faults config refusal) :=
  (shuts_salvages _ _).behind rfl

theorem shuts_closes (code : ℕ) : Shuts host (host.closes code) :=
  Shuts.behind (rfl : (Act.faulted false).shuts = true) (shuts_cons rfl rfl)

/-- What a life's steps and a new life's start preserve, every run preserves. -/
theorem run_induct {I : Runner → Prop}
    (turns : ∀ {host after}, Turn config host after → I host → I after)
    (boots : ∀ {host : Runner}, I host → I (boot host.life host.nowNs host.acts))
    {host last : Runner} {moves : List Move} (start : I host)
    (ran : (runner config).run host moves = some last) : I last := by
  refine Machine.run_induct I (fun {host move after} kept stepped => ?_) start ran
  by_cases alive : move = .dies
  · subst alive
    cases stepped
    exact boots kept
  · exact turns (step_turn alive stepped) kept

/-- What a life's steps preserve, every run in which the process lives preserves. -/
theorem life_induct {I : Runner → Prop}
    (turns : ∀ {host after}, Turn config host after → I host → I after) {host last : Runner}
    {moves : List Move} (alive : ∀ move ∈ moves, move ≠ .dies) (start : I host)
    (ran : (runner config).run host moves = some last) : I last := by
  induction moves generalizing host with
  | nil =>
      cases ran
      exact start
  | cons move rest ih =>
      obtain ⟨middle, stepped, tail⟩ := Machine.run_cons_eq_some.mp ran
      exact ih (fun other member => alive other (List.mem_cons_of_mem _ member))
        (turns (step_turn (alive move List.mem_cons_self) stepped) start) tail

end Runner

end Tickwright.Engine
