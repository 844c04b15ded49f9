/-
# Engine.KillSwitch -- a halt outlives the process

The switch is one row of the store and one flag of the guard.  A trip and a reset write
the row first.  A new process builds its guard from the row, and it may do so while the
old one still runs, for the store's lock is asked for later.  A process may also run with
no guard (`GUARD=noop`), which reads no row, writes none and approves everything.

`haltable` is the engine beside its guard, that row, and a guard that is built and waits
for the lock.  The process may die inside any handler, and between the two halves of a
trip.

* `OnlyFlattens`: what a step places is the operator's own flatten order;
* `halt_holds`: once a trip is in the row, every run up to the next reset places no other
  order, through any deaths and restarts, while every process runs a real guard, and
  unless one was built before the trip and took over after it;
* such a guard does place (`Sample.stale_guard_places`), as does the next process without
  one (`Sample.unguarded_places`);
* a halt holds back no cancel (`Sample.halted_cancels`).
-/
import Tickwright.Engine.Placement
import Tickwright.Engine.PositionCap
import Tickwright.Engine.Silent

namespace Tickwright.Engine

open Tickwright.Domain Tickwright.Theory Tickwright.Store

set_option autoImplicit false

/-! ## The machine -/

/-- The persisted switch. -/
structure KillSwitchState where
  tripped : Bool
  reason : Option String
  tsNs : Nanos
deriving DecidableEq

/-- The switch as a guard reads it: a row that was never written is not tripped. -/
def onRow (row : Option KillSwitchState) : Bool := (row.map KillSwitchState.tripped).getD false

/-- `GUARD`, and what a real guard is wired with. -/
inductive GuardConfig
  | real (guard : RealGuard)
  | noop

def GuardConfig.isReal : GuardConfig → Bool
  | real _ => true
  | noop => false

/-- The guard of a process. -/
inductive PreTradeGuard
  | real (guard : RealGuard)
  | noop

namespace PreTradeGuard

/-- `build_guard` over the row.  A real guard's window starts empty. -/
def built (row : Option KillSwitchState) : GuardConfig → PreTradeGuard
  | .real guard => .real { guard with tripped := onRow row, approvedNs := [] }
  | .noop => .noop

/-- `kill_switch_tripped`. -/
def tripped : PreTradeGuard → Bool
  | real guard => guard.tripped
  | noop => false

/-- The flag of a real guard is moved; there is none to move on the other. -/
def flagged (flag : Bool) : PreTradeGuard → PreTradeGuard
  | real guard => real { guard with tripped := flag }
  | noop => noop

/-- `check`, of a signal that reaches it. -/
def judges (gates : Gates) (memory : Memory) (cloid : Cloid) (signal : PlaceSignal)
    (mark : Option MarkTick) (nowNs : Nanos) :
    PreTradeGuard → Except InvariantViolation (GuardDecision × PreTradeGuard)
  | real guard => (judge guard gates memory cloid signal mark nowNs).map fun judged =>
      (judged.1, real judged.2)
  | noop => .ok (.approved signal.quantity signal.price, noop)

end PreTradeGuard

structure Haltable where
  life : Life
  guard : PreTradeGuard
  row : Option KillSwitchState := none
  /-- The guard of a process that is built and has not taken the lock. -/
  waiting : Option PreTradeGuard := none

inductive HaltMove
  | place (gates : Gates) (signal : PlaceSignal) (mark : Option MarkTick) (nowNs : Nanos)
  /-- The process dies inside a placement.  `next` is what a new one is configured with. -/
  | placeDies (gates : Gates) (signal : PlaceSignal) (mark : Option MarkTick) (nowNs : Nanos)
      (steps : ℕ) (next : GuardConfig) (restartNs : Nanos)
  /-- Anything else that arrives. -/
  | handle (input : Input) (nowNs : Nanos)
  | handleDies (input : Input) (nowNs : Nanos) (steps : ℕ) (next : GuardConfig)
      (restartNs : Nanos)
  | sent (nowNs : Nanos)
  | dies (next : GuardConfig) (restartNs : Nanos)
  /-- `_set_kill_switch`. -/
  | sets (tripped : Bool) (reason : Option String) (nowNs : Nanos)
  /-- The process dies inside it, after the write or before. -/
  | setsDies (tripped : Bool) (reason : Option String) (nowNs : Nanos) (wrote : Bool)
      (next : GuardConfig) (restartNs : Nanos)
  /-- Another process builds its guard. -/
  | builds (config : GuardConfig)

namespace Haltable

/-- The next process has the lock: the one that waits, or a new one. -/
def takenOver (desk : Haltable) (next : GuardConfig) (life : Life) : Haltable where
  life := life
  guard := desk.waiting.getD (.built desk.row next)
  row := desk.row

/-- The write of `_set_kill_switch`.  `NoopGuard`'s verbs are inert. -/
def written (desk : Haltable) (tripped : Bool) (reason : Option String) (nowNs : Nanos) :
    Haltable :=
  match desk.guard with
  | .real _ => { desk with row := some ⟨tripped, reason, nowNs⟩ }
  | .noop => desk

end Haltable

/-- **The engine, its guard and the switch.** -/
def haltable (deriveCloid : SignalId → Cloid) (config : Config) : Machine Haltable HaltMove where
  step desk move :=
    let judged := fun gates (signal : PlaceSignal) mark nowNs => desk.guard.judges gates
      desk.life.process.memory (deriveCloid signal.signalId) signal mark nowNs
    match move with
    | .place gates signal mark nowNs =>
        match judged gates signal mark nowNs with
        | .error _ => none
        | .ok (verdict, moved) =>
            ((engine deriveCloid config).step desk.life
              (.handle (.place gates signal verdict) nowNs)).map fun life =>
                { desk with life := life, guard := moved }
    | .placeDies gates signal mark nowNs steps next restartNs =>
        match judged gates signal mark nowNs with
        | .error _ => none
        | .ok (verdict, _) =>
            ((engine deriveCloid config).step desk.life
              (.crashIn (.place gates signal verdict) nowNs steps restartNs)).map
                (desk.takenOver next)
    | .handle input nowNs =>
        if input.isPlace then none
        else ((engine deriveCloid config).step desk.life (.handle input nowNs)).map fun life =>
          { desk with life := life }
    | .handleDies input nowNs steps next restartNs =>
        if input.isPlace then none
        else ((engine deriveCloid config).step desk.life
          (.crashIn input nowNs steps restartNs)).map (desk.takenOver next)
    | .sent nowNs =>
        ((engine deriveCloid config).step desk.life (.sent nowNs)).map fun life =>
          { desk with life := life }
    | .dies next restartNs =>
        ((engine deriveCloid config).step desk.life (.crash restartNs)).map (desk.takenOver next)
    | .sets tripped reason nowNs =>
        let desk := desk.written tripped reason nowNs
        some { desk with guard := desk.guard.flagged tripped }
    | .setsDies tripped reason nowNs wrote next restartNs =>
        let desk := if wrote then desk.written tripped reason nowNs else desk
        ((engine deriveCloid config).step desk.life (.crash restartNs)).map (desk.takenOver next)
    | .builds config => some { desk with waiting := some (.built desk.row config) }

/-- The move may write the switch untripped. -/
def HaltMove.resets : HaltMove → Bool
  | .sets tripped _ _ | .setsDies tripped _ _ _ _ _ => !tripped
  | _ => false

/-- A process that the move builds runs `GUARD=real`. -/
def HaltMove.guarded : HaltMove → Bool
  | .placeDies _ _ _ _ _ next _ | .handleDies _ _ _ next _ | .dies next _
  | .setsDies _ _ _ _ next _ | .builds next => next.isReal
  | .place .. | .handle .. | .sent _ | .sets .. => true

/-- The operator's flatten order is what a move places. -/
def HaltMove.flattens : HaltMove → Bool
  | .place _ signal _ _ | .placeDies _ signal _ _ _ _ _ => signal.isFlatten
  | _ => false

/-! ## A halt holds -/

section Halt

variable {deriveCloid : SignalId → Cloid} {config : Config} {desk after : Haltable}
  {move : HaltMove}

/-- The switch is tripped in the row, in the guard, which is a real one, and in a guard
that waits. -/
structure Halted (desk : Haltable) : Prop where
  row : onRow desk.row = true
  guard : desk.guard.tripped = true
  waiting : ∀ guard, desk.waiting = some guard → guard.tripped = true

theorem judges_cases {guard moved : PreTradeGuard} {gates : Gates} {memory : Memory}
    {cloid : Cloid} {signal : PlaceSignal} {mark : Option MarkTick} {nowNs : Nanos}
    {verdict : GuardDecision} (tripped : guard.tripped = true)
    (judged : guard.judges gates memory cloid signal mark nowNs = .ok (verdict, moved)) :
    ∃ held next, moved = .real next ∧ held.tripped = true ∧
      judge held gates memory cloid signal mark nowNs = .ok (verdict, next) := by
  cases guard with
  | noop => cases tripped
  | real held =>
      simp only [PreTradeGuard.judges] at judged
      cases ruled : judge held gates memory cloid signal mark nowNs with
      | error violation =>
          rw [ruled] at judged
          cases judged
      | ok result =>
          rw [ruled] at judged
          cases judged
          exact ⟨held, _, rfl, tripped, ruled⟩

/-- A tripped guard denies all but a flatten order. -/
theorem judge_halted {guard moved : PreTradeGuard} {gates : Gates} {memory : Memory}
    {cloid : Cloid} {signal : PlaceSignal} {mark : Option MarkTick} {nowNs : Nanos}
    {verdict : GuardDecision} (tripped : guard.tripped = true) (plain : signal.isFlatten = false)
    (judged : guard.judges gates memory cloid signal mark nowNs = .ok (verdict, moved)) :
    ∃ reason, verdict = .denied reason := by
  obtain ⟨held, next, -, tripped, judged⟩ := judges_cases tripped judged
  have kind : orderKind signal ≠ .flatten := by
    unfold orderKind
    rw [plain]
    cases signal.reduceOnly <;> decide
  unfold judge at judged
  split at judged
  · simp only [RealGuard.check] at judged
    rw [if_pos ⟨tripped, kind⟩] at judged
    cases judged
    exact ⟨_, rfl⟩
  · cases judged
    exact ⟨_, rfl⟩

theorem judge_tripped {guard moved : PreTradeGuard} {gates : Gates} {memory : Memory}
    {cloid : Cloid} {signal : PlaceSignal} {mark : Option MarkTick} {nowNs : Nanos}
    {verdict : GuardDecision} (tripped : guard.tripped = true)
    (judged : guard.judges gates memory cloid signal mark nowNs = .ok (verdict, moved)) :
    moved.tripped = true := by
  obtain ⟨held, next, rfl, tripped, judged⟩ := judges_cases tripped judged
  unfold judge at judged
  split at judged
  · obtain ⟨approvedNs, rfl⟩ := RealGuard.check_keeps judged
    exact tripped
  · cases judged
    exact tripped

/-- A real guard built over a tripped row is tripped. -/
theorem built_tripped {row : Option KillSwitchState} {config : GuardConfig}
    (tripped : onRow row = true) (real : config.isReal = true) :
    (PreTradeGuard.built row config).tripped = true := by
  cases config with
  | real guard => exact tripped
  | noop => cases real

theorem Halted.takenOver {next : GuardConfig} (halted : Halted desk) (real : next.isReal = true)
    (life : Life) : Halted (desk.takenOver next life) := by
  refine ⟨halted.row, ?_, fun _ none_ => by cases none_⟩
  cases waits : desk.waiting with
  | none =>
      have guard : (desk.takenOver next life).guard = .built desk.row next := by
        simp [Haltable.takenOver, waits]
      rw [guard]
      exact built_tripped halted.row real
  | some guard =>
      have same : (desk.takenOver next life).guard = guard := by simp [Haltable.takenOver, waits]
      rw [same]
      exact halted.waiting guard waits

theorem flagged_tripped {guard : PreTradeGuard} (tripped : guard.tripped = true) :
    (guard.flagged true).tripped = true := by
  cases guard with
  | real guard => rfl
  | noop => cases tripped

/-- A tripped guard is a real one, and its verbs write the row. -/
theorem written_row (tripped : desk.guard.tripped = true) (flag : Bool) (reason : Option String)
    (nowNs : Nanos) :
    desk.written flag reason nowNs = { desk with row := some ⟨flag, reason, nowNs⟩ } := by
  cases is : desk.guard with
  | real guard => simp only [Haltable.written, is]
  | noop =>
      rw [is] at tripped
      cases tripped

/-- What the step places, if it places, is the operator's flatten order. -/
def OnlyFlattens (deriveCloid : SignalId → Cloid) (config : Config) (desk : Haltable)
    (move : HaltMove) : Prop :=
  ∀ after, (haltable deriveCloid config).step desk move = some after →
    after.life.process.placed = desk.life.process.placed ∨ move.flattens = true

/-- What a handled script leaves of the requests. -/
theorem handled_placed {life next : Life} {input : Input} {nowNs : Nanos}
    (silent : Silent (scriptOf deriveCloid config life.process nowNs input).effects)
    (handled : (engine deriveCloid config).step life (.handle input nowNs) = some next) :
    next.process.placed = life.process.placed := by
  simp only [engine] at handled
  split at handled
  · cases handled
    exact silent.placed life.process
  · cases handled

theorem died_placed {life next : Life} {input : Input} {nowNs restartNs : Nanos} {steps : ℕ}
    (silent : Silent (scriptOf deriveCloid config life.process nowNs input).effects)
    (died : (engine deriveCloid config).step life (.crashIn input nowNs steps restartNs) =
      some next) : next.process.placed = life.process.placed := by
  simp only [engine] at died
  split at died
  · rw [restart_placed died]
    exact (silent.take steps).placed life.process
  · cases died

theorem sent_placed {life next : Life} {nowNs : Nanos}
    (sent : (engine deriveCloid config).step life (.sent nowNs) = some next) :
    next.process.placed = life.process.placed := by
  simp only [engine] at sent
  split at sent
  · cases sent
  · cases sent
    refine Silent.placed ?_ life.process
    unfold afterSend
    split
    · exact silent_nil
    · exact silent_checkpoint _ _ _

/-- **A step of a halted engine places no order but flatten orders**, and leaves it halted
unless it resets or starts a process without a guard. -/
theorem step_halted (halted : Halted desk)
    (stepped : (haltable deriveCloid config).step desk move = some after) :
    (move.resets = false → move.guarded = true → Halted after) ∧
      (after.life.process.placed = desk.life.process.placed ∨ move.flattens = true) := by
  cases move with
  | place gates signal mark nowNs =>
      simp only [haltable] at stepped
      split at stepped
      · cases stepped
      · rename_i verdict moved judged
        obtain ⟨life, handled, rfl⟩ := Option.map_eq_some_iff.mp stepped
        refine ⟨fun _ _ => ⟨halted.row, judge_tripped halted.guard judged, halted.waiting⟩, ?_⟩
        cases flattens : signal.isFlatten with
        | true => exact Or.inr flattens
        | false =>
            exact Or.inl (handled_placed
              (silent_denied _ nowNs (judge_halted halted.guard flattens judged)) handled)
  | placeDies gates signal mark nowNs steps next restartNs =>
      simp only [haltable] at stepped
      split at stepped
      · cases stepped
      · rename_i verdict moved judged
        obtain ⟨life, died, rfl⟩ := Option.map_eq_some_iff.mp stepped
        refine ⟨fun _ real => halted.takenOver real life, ?_⟩
        cases flattens : signal.isFlatten with
        | true => exact Or.inr flattens
        | false =>
            exact Or.inl (died_placed
              (silent_denied _ nowNs (judge_halted halted.guard flattens judged)) died)
  | handle input nowNs =>
      simp only [haltable] at stepped
      split at stepped
      · cases stepped
      · rename_i other
        obtain ⟨life, handled, rfl⟩ := Option.map_eq_some_iff.mp stepped
        exact ⟨fun _ _ => ⟨halted.row, halted.guard, halted.waiting⟩,
          Or.inl (handled_placed (silent_others _ nowNs (by simpa using other)) handled)⟩
  | handleDies input nowNs steps next restartNs =>
      simp only [haltable] at stepped
      split at stepped
      · cases stepped
      · rename_i other
        obtain ⟨life, died, rfl⟩ := Option.map_eq_some_iff.mp stepped
        exact ⟨fun _ real => halted.takenOver real life,
          Or.inl (died_placed (silent_others _ nowNs (by simpa using other)) died)⟩
  | sent nowNs =>
      obtain ⟨life, sent, rfl⟩ := Option.map_eq_some_iff.mp stepped
      exact ⟨fun _ _ => ⟨halted.row, halted.guard, halted.waiting⟩, Or.inl (sent_placed sent)⟩
  | dies next restartNs =>
      obtain ⟨life, restarted, rfl⟩ := Option.map_eq_some_iff.mp stepped
      exact ⟨fun _ real => halted.takenOver real life, Or.inl (restart_placed restarted)⟩
  | sets tripped reason nowNs =>
      simp only [haltable, written_row halted.guard, Option.some.injEq] at stepped
      subst stepped
      refine ⟨fun trips _ => ?_, Or.inl rfl⟩
      have tripped : tripped = true := by simpa [HaltMove.resets] using trips
      subst tripped
      exact ⟨rfl, flagged_tripped halted.guard, halted.waiting⟩
  | setsDies tripped reason nowNs wrote next restartNs =>
      simp only [haltable, written_row halted.guard] at stepped
      obtain ⟨life, restarted, rfl⟩ := Option.map_eq_some_iff.mp stepped
      have same : (if wrote = true then { desk with row := some ⟨tripped, reason, nowNs⟩ }
          else desk).life = desk.life := by
        split <;> rfl
      rw [same] at restarted
      refine ⟨fun trips real => ?_, Or.inl (restart_placed restarted)⟩
      have tripped : tripped = true := by simpa [HaltMove.resets] using trips
      subst tripped
      split
      · have written : Halted { desk with row := some ⟨true, reason, nowNs⟩ } :=
          ⟨rfl, halted.guard, halted.waiting⟩
        exact written.takenOver real life
      · exact halted.takenOver real life
  | builds config =>
      cases stepped
      refine ⟨fun _ real => ⟨halted.row, halted.guard, fun guard built => ?_⟩, Or.inl rfl⟩
      cases built
      exact built_tripped halted.row real

/-- A trip halts, also one the process dies on once it is in the row. -/
theorem trip_halts {guard : RealGuard} {reason : Option String} {next : GuardConfig}
    {nowNs restartNs : Nanos} (real : desk.guard = .real guard) (alone : desk.waiting = none)
    (trips : move = .sets true reason nowNs ∨
      move = .setsDies true reason nowNs true next restartNs)
    (guarded : move.guarded = true)
    (stepped : (haltable deriveCloid config).step desk move = some after) : Halted after := by
  have writes : desk.written true reason nowNs =
      { desk with row := some ⟨true, reason, nowNs⟩ } := by
    simp only [Haltable.written, real]
  rcases trips with rfl | rfl
  · simp only [haltable, writes, Option.some.injEq] at stepped
    subst stepped
    refine ⟨rfl, ?_, fun guard waits => ?_⟩
    · rw [real]
      rfl
    · have waits : desk.waiting = some guard := waits
      rw [alone] at waits
      cases waits
  · simp only [haltable, writes, if_true] at stepped
    obtain ⟨life, -, rfl⟩ := Option.map_eq_some_iff.mp stepped
    refine ⟨rfl, ?_, fun _ none_ => by cases none_⟩
    simp only [Haltable.takenOver, alone, Option.getD_none]
    exact built_tripped rfl guarded

/-- **A halt outlives the process.**  Once a trip is in the row, with no guard built
before it still waiting for the lock, every run up to the next reset whose processes all
run a real guard, through any deaths and restarts, places no order but the operator's
flatten orders, and ends with the switch tripped in the row and in the guard. -/
theorem halt_holds {halted last : Haltable} {guard : RealGuard} {reason : Option String}
    {next : GuardConfig} {nowNs restartNs : Nanos} {trip : HaltMove} {moves : List HaltMove}
    (real : desk.guard = .real guard) (alone : desk.waiting = none)
    (trips : trip = .sets true reason nowNs ∨
      trip = .setsDies true reason nowNs true next restartNs)
    (tripped : (haltable deriveCloid config).step desk trip = some halted)
    (guarded : ∀ move ∈ trip :: moves, move.guarded = true)
    (noReset : ∀ move ∈ moves, move.resets = false)
    (ran : (haltable deriveCloid config).run halted moves = some last) :
    (haltable deriveCloid config).Meets (OnlyFlattens deriveCloid config) halted moves ∧
      onRow last.row = true ∧ last.guard.tripped = true := by
  have halts := trip_halts real alone trips (guarded trip List.mem_cons_self) tripped
  replace guarded : ∀ move ∈ moves, move.guarded = true :=
    fun move member => guarded move (List.mem_cons_of_mem _ member)
  clear tripped
  induction moves generalizing halted with
  | nil =>
      cases ran
      exact ⟨trivial, halts.row, halts.guard⟩
  | cons move rest ih =>
      obtain ⟨middle, enabled, tail⟩ := Machine.run_cons_eq_some.mp ran
      have kept := (step_halted halts enabled).1 (noReset move List.mem_cons_self)
        (guarded move List.mem_cons_self)
      obtain ⟨meets, ends⟩ := ih (fun m member => noReset m (List.mem_cons_of_mem _ member)) tail
        kept (fun m member => guarded m (List.mem_cons_of_mem _ member))
      refine ⟨⟨fun after stepped => (step_halted halts stepped).2, fun t stepped => ?_⟩, ends⟩
      rw [enabled] at stepped
      cases stepped
      exact meets

end Halt

namespace Sample

/-- Trades BTC, up to fifty either way. -/
def openGuard : RealGuard where
  specs _ := some { szDecimals := 2, maxDecimals := 4, minNotional := 1 }
  limits := { symbols := fun _ => { maxPosition := some 50 } }

/-- The process dies on the trip, once it is in the row. -/
def tripDies : HaltMove :=
  .setsDies true (some "SIGUSR1: operator kill switch") 1 true (.real openGuard) 2

def haltedBuys : List HaltMove :=
  [.place {} buy none 3, .dies (.real openGuard) 4, .place {} { buy with seq := 2 } none 5]

theorem nothing_placed : ∃ first halted last, restart paper unstarted 0 = some first ∧
    (haltable cloidOf paper).step ⟨first, .real openGuard, none, none⟩ tripDies = some halted ∧
    (haltable cloidOf paper).run halted haltedBuys = some last ∧
    last.life.process.placed.length = 0 ∧
    (haltable cloidOf paper).Meets (OnlyFlattens cloidOf paper) halted haltedBuys := by
  have lived : ((restart paper unstarted 0).bind fun first =>
      ((haltable cloidOf paper).step ⟨first, .real openGuard, none, none⟩ tripDies).bind
        fun halted => ((haltable cloidOf paper).run halted haltedBuys).map fun last =>
          last.life.process.placed.length) = some 0 := by
    decide +kernel
  obtain ⟨first, begun, lived⟩ := Option.bind_eq_some_iff.mp lived
  obtain ⟨halted, tripped, lived⟩ := Option.bind_eq_some_iff.mp lived
  obtain ⟨last, ran, none_⟩ := Option.map_eq_some_iff.mp lived
  exact ⟨first, halted, last, begun, tripped, ran, none_,
    (halt_holds rfl rfl (Or.inr rfl) tripped (by decide) (by decide) ran).1⟩

/-- A guard that was built before the trip, and took over after it, places. -/
theorem stale_guard_places : ((restart paper unstarted 0).bind fun first =>
    ((haltable cloidOf paper).run ⟨first, .real openGuard, none, none⟩
      [.builds (.real openGuard), .sets true none 1, .dies (.real openGuard) 2,
        .place {} buy none 3]).map fun last =>
          (onRow last.row, last.life.process.placed.length)) = some (true, 1) := by
  decide +kernel

/-- So does the next process, where it runs without a guard. -/
theorem unguarded_places : ((restart paper unstarted 0).bind fun first =>
    ((haltable cloidOf paper).run ⟨first, .real openGuard, none, none⟩
      [.sets true none 1, .dies .noop 2, .place {} buy none 3]).map fun last =>
        (onRow last.row, last.life.process.placed.length)) = some (true, 1) := by
  decide +kernel

/-- A cancel of an order that was placed before the halt goes out under it. -/
theorem halted_cancels : ((restart paper unstarted 0).bind fun first =>
    ((haltable cloidOf paper).run ⟨first, .real openGuard, none, none⟩
      [.place {} buy none 1, .sent 2, .handle (.report (.status live)) 3, .sets true none 4,
        .handle (.cancel ⟨momentum, "BTC", 2, buy.signalId⟩) 5]).map fun last =>
          (last.guard.tripped, last.life.process.cancelled.length)) = some (true, 1) := by
  decide +kernel

end Sample

end Tickwright.Engine
