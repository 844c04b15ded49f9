/-
# Engine.Teardown -- the whole reverse shutdown

The shutdown is one list walked twice: gracefully, and after a fault from its top again,
each hook's own break recorded and passed over.

* `teardown_whole`: a run that ended in one life either was refused the store, and then
  wrote nothing to it and called nothing but its close; or walked the list once,
  gracefully, behind a cleared barrier; or faulted, and walked all of the list behind what
  the graceful walk had called.  The exit code says which, and the host starts and proves
  nothing behind a hook.
-/
import Tickwright.Engine.BootGate

namespace Tickwright.Engine

open Tickwright.Domain Tickwright.Theory Tickwright.Store

set_option autoImplicit false

namespace Runner

variable {config : RunnerConfig} {host after : Runner} {store : Store}

/-! ## What a shutdown has called -/

/-- The hook an act calls. -/
def Act.hook : Act → Option Hook
  | .calls (.hook hook) => some hook
  | _ => none

/-- The hooks of the shutdown, in the order they were called. -/
def hooks (acts : List Act) : List Hook := acts.reverse.filterMap Act.hook

/-- Whether the host starts or proves something by an act. -/
def Act.starts : Act → Bool
  | .calls (.hook _) => false
  | .calls _ | .proved _ => true
  | _ => false

/-- The host starts nothing behind a hook. -/
def StartsFirst : List Act → Prop
  | [] => True
  | act :: older => (act.starts = true → hooks older = []) ∧ StartsFirst older

/-- The code a fault ends the run with. -/
def faultCode (refusal : Bool) : ℕ := if refusal then 2 else 1

/-- How far a run that faulted is: what the graceful shutdown had called, and all of it
again. -/
structure Salvaged (config : RunnerConfig) (acts : List Act) (code : ℕ) (behind : List Hook) :
    Prop where
  walked : ∃ walked, walked <+: teardown config.exitRun ∧
    hooks acts ++ behind = walked ++ teardown config.exitRun
  code : ∃ refusal, .faulted refusal ∈ acts ∧ code = faultCode refusal

/-- How far a run that was refused the store is: it wrote nothing. -/
structure Refused (store now : Store) (acts : List Act) (code : ℕ) : Prop where
  hooks : hooks acts = [.storeClose]
  store : now = store
  failed : code ≠ 0

/-- How far a run is, by what it waits for.  `graceful` is the code it would end on. -/
def Walked (config : RunnerConfig) (store now : Store) (graceful : ℕ) (acts : List Act) :
    Phase → Prop
  | .locking | .admitting => hooks acts = [] ∧ now = store
  | .recovering | .busStarting | .exchangeStarting | .proving .. | .backingOff .. | .hosting
  | .feeding | .running => hooks acts = []
  | .stopping behind => hooks acts ++ behind = teardown config.exitRun ∧ Cleared acts
  | .salvaging code behind => Salvaged config acts code behind
  | .closing code => Refused store now acts code
  | .ended code =>
      Refused store now acts code ∨
        (code = graceful ∧ Cleared acts ∧ hooks acts = teardown config.exitRun) ∨
        Salvaged config acts code []

theorem hooks_append (newer older : List Act) :
    hooks (newer ++ older) = hooks older ++ hooks newer := by
  unfold hooks
  rw [List.reverse_append, List.filterMap_append]

theorem hooks_cons (act : Act) (acts : List Act) :
    hooks (act :: acts) = hooks acts ++ act.hook.toList := by
  rw [← List.singleton_append, hooks_append]
  unfold hooks
  cases is : act.hook <;> simp [is]

theorem hooks_cons_other {act : Act} {acts : List Act} (other : act.hook = none) :
    hooks (act :: acts) = hooks acts := by
  rw [hooks_cons, other, Option.toList_none, List.append_nil]

/-- **Where a run stands, and that it started nothing behind a hook.** -/
structure Shutting (config : RunnerConfig) (store : Store) (host : Runner) : Prop where
  ordered : StartsFirst host.acts
  walked : Walked config store host.life.process.store (host.gracefulCode config) host.acts
    host.phase

/-- No hook was called before the shutdown. -/
theorem Shutting.unhooked (shutting : Shutting config store host)
    (early : host.phase.before = true ∨ host.phase.behind = true) : hooks host.acts = [] := by
  have walked := shutting.walked
  cases phase : host.phase <;> rw [phase] at walked early <;>
    first
    | exact walked.1
    | exact walked
    | (rcases early with early | early <;> cases early)

/-- The sends of a handler call no hook and start nothing. -/
theorem sends_ordered {acts : List Act} (input : Input) (requests : List PlaceOrder)
    (ordered : StartsFirst acts) :
    hooks ((requests.map (Act.sends input)).reverse ++ acts) = hooks acts ∧
      StartsFirst ((requests.map (Act.sends input)).reverse ++ acts) := by
  induction requests using List.reverseRecOn with
  | nil => exact ⟨rfl, ordered⟩
  | append_singleton earlier request ih =>
      rw [List.map_append, List.reverse_append]
      exact ⟨(hooks_cons_other rfl).trans ih.1, fun starts => (by cases starts), ih.2⟩

/-- A call before the shutdown, and what is waited for next. -/
theorem Shutting.calls (shutting : Shutting config store host)
    (early : host.phase.before = true ∨ host.phase.behind = true) (act : Act)
    (other : act.hook = none) :
    StartsFirst (act :: host.acts) ∧ hooks (act :: host.acts) = [] :=
  ⟨⟨fun _ => shutting.unhooked early, shutting.ordered⟩,
    (hooks_cons_other other).trans (shutting.unhooked early)⟩

/-- A hook of the graceful walk. -/
theorem Shutting.stops {behind : List Hook} (ordered : StartsFirst host.acts)
    (walked : hooks host.acts ++ behind = teardown config.exitRun) (cleared : Cleared host.acts) :
    Shutting config store (host.stops config behind) := by
  cases behind with
  | nil =>
      rw [List.append_nil] at walked
      refine ⟨⟨fun starts => (by cases starts), ordered⟩, Or.inr (Or.inl ⟨rfl, ?_, ?_⟩)⟩
      · exact cleared.cons (by rintro ⟨⟩)
      · exact (hooks_cons_other rfl).trans walked
  | cons hook rest =>
      refine ⟨⟨fun starts => (by cases starts), ordered⟩, ?_, cleared.cons (by rintro ⟨⟩)⟩
      rw [← walked]
      exact (congrArg (· ++ rest) (hooks_cons _ _)).trans (List.append_assoc _ [hook] rest)

/-- A hook of the walk after a fault. -/
theorem Shutting.salvages {behind : List Hook} {code : ℕ} (ordered : StartsFirst host.acts)
    (salvaged : Salvaged config host.acts code behind) :
    Shutting config store (host.salvages code behind) := by
  obtain ⟨⟨walked, initial, called⟩, refusal, faulted, coded⟩ := salvaged
  cases behind with
  | nil =>
      refine ⟨⟨fun starts => (by cases starts), ordered⟩, Or.inr (Or.inr
        ⟨⟨walked, initial, ?_⟩, refusal, List.mem_cons_of_mem _ faulted, coded⟩)⟩
      rw [← called]
      exact congrArg (· ++ []) (hooks_cons_other rfl)
  | cons hook rest =>
      refine ⟨⟨fun starts => (by cases starts), ordered⟩, ⟨walked, initial, ?_⟩, refusal,
        List.mem_cons_of_mem _ faulted, coded⟩
      rw [← called]
      exact (congrArg (· ++ rest) (hooks_cons _ _)).trans (List.append_assoc _ [hook] rest)

/-- A fault starts the walk from the top, behind what the graceful walk had called. -/
theorem Shutting.faults {refusal : Bool} (ordered : StartsFirst host.acts)
    (called : hooks host.acts <+: teardown config.exitRun) :
    Shutting config store (host.faults config refusal) := by
  refine Shutting.salvages ⟨fun starts => (by cases starts), ordered⟩
    ⟨⟨hooks host.acts, called, ?_⟩, refusal, List.mem_cons_self, rfl⟩
  exact congrArg (· ++ teardown config.exitRun) (hooks_cons_other rfl)

/-- What a run that may fault has called. -/
theorem Shutting.called (shutting : Shutting config store host)
    (at_ : host.phase.faultable = true) : hooks host.acts <+: teardown config.exitRun := by
  have walked := shutting.walked
  cases phase : host.phase with
  | stopping behind =>
      rw [phase] at walked
      exact ⟨behind, walked.1⟩
  | recovering | busStarting | exchangeStarting | proving _ _ | hosting | feeding | running =>
      rw [phase] at walked
      have none_ : hooks host.acts = [] := walked
      rw [none_]
      exact List.nil_prefix
  | locking | admitting | backingOff _ _ | salvaging _ _ | closing _ | ended _ =>
      rw [phase] at at_
      cases at_

/-- A handler's sends leave the walk where it is. -/
theorem Shutting.plays (shutting : Shutting config store host) {input : Input} {life : Life}
    (taken : host.takes config input = true) : Shutting config store (host.plays input life) := by
  have walked := shutting.walked
  obtain ⟨same, ordered⟩ := sends_ordered input
    (life.process.placed.drop host.life.process.placed.length) shutting.ordered
  refine ⟨ordered, ?_⟩
  simp only [takes, Bool.and_eq_true] at taken
  have listens := taken.1.1
  show Walked config store _ _ (_ ++ host.acts) host.phase
  unfold subscribed at listens
  cases phase : host.phase with
  | locking | admitting | recovering | closing _ | ended _ =>
      rw [phase] at listens
      cases listens
  | busStarting | exchangeStarting | proving _ _ | backingOff _ _ | hosting | feeding | running =>
      rw [phase] at walked
      exact same.trans walked
  | stopping behind =>
      rw [phase] at walked
      refine ⟨(congrArg (· ++ behind) same).trans walked.1, walked.2.behind fun member => ?_⟩
      obtain ⟨request, _, none_⟩ := List.mem_map.mp (List.mem_reverse.mp member)
      cases none_
  | salvaging code behind =>
      rw [phase] at walked
      obtain ⟨⟨before, initial, called⟩, refusal, faulted, coded⟩ := walked
      exact ⟨⟨before, initial, (congrArg (· ++ behind) same).trans called⟩, refusal,
        List.mem_append_right _ faulted, coded⟩

/-! ## One life -/

/-- **Every step of a life keeps the walk.** -/
theorem Turn.shutting (turn : Turn config host after) (barred : Barred config host)
    (shutting : Shutting config store host) : Shutting config store after := by
  have walked := shutting.walked
  cases turn with
  | idles later still unsent =>
      refine ⟨shutting.ordered, ?_⟩
      cases phase : host.phase with
      | locking | admitting =>
          rw [phase] at walked
          have same := still (by unfold subscribed; rw [phase])
          exact ⟨walked.1, same.trans walked.2⟩
      | closing code =>
          rw [phase] at walked
          have same := still (by unfold subscribed; rw [phase])
          exact ⟨walked.hooks, same.trans walked.store, walked.failed⟩
      | ended code =>
          rw [phase] at walked
          have same := still (by unfold subscribed; rw [phase])
          rcases walked with refused | rest
          · exact Or.inl ⟨refused.hooks, same.trans refused.store, refused.failed⟩
          · exact Or.inr rest
      | recovering | busStarting | exchangeStarting | proving _ _ | backingOff _ _ | hosting
      | feeding | running | stopping _ | salvaging _ _ =>
          rw [phase] at walked
          exact walked
  | jobEnds runs =>
      refine ⟨shutting.ordered, ?_⟩
      cases phase : host.phase with
      | running | stopping behind =>
          rw [phase] at walked
          exact walked
      | locking | admitting | recovering | busStarting | exchangeStarting | proving _ _
      | backingOff _ _ | hosting | feeding | salvaging _ _ | closing _ | ended _ =>
          simp [jobRuns, phase] at runs
  | plays taken part => exact shutting.plays taken
  | asks at_ exits =>
      have calls := shutting.calls (Or.inl (by rw [at_]; rfl)) (.calls .admission) rfl
      rw [at_] at walked
      exact ⟨calls.1, calls.2, walked.2⟩
  | recovers at_ =>
      have early : host.phase.before = true := by rcases at_ with at_ | at_ <;> rw [at_] <;> rfl
      have calls := shutting.calls (Or.inl early) (.calls .recover) rfl
      exact ⟨calls.1, calls.2⟩
  | recovered at_ unsent =>
      have calls := shutting.calls (Or.inl (by rw [at_]; rfl)) (.calls .busStart) rfl
      exact ⟨calls.1, calls.2⟩
  | busStarted at_ =>
      have calls := shutting.calls (Or.inl (by rw [at_]; rfl)) (.calls .exchangeStart) rfl
      exact ⟨calls.1, calls.2⟩
  | exchangeStarted at_ =>
      exact ⟨shutting.ordered, shutting.unhooked (Or.inl (by rw [at_]; rfl))⟩
  | wakes at_ due => exact ⟨shutting.ordered, shutting.unhooked (Or.inl (by rw [at_]; rfl))⟩
  | account at_ unsent =>
      have calls := shutting.calls (Or.inl (by rw [at_]; rfl)) (.proved .account) rfl
      exact ⟨calls.1, calls.2⟩
  | clears at_ exits =>
      have calls := shutting.calls (Or.inl (by rw [at_]; rfl)) (.proved .sagas) rfl
      exact ⟨calls.1, calls.2⟩
  | hosts at_ trades =>
      have proved := shutting.calls (Or.inl (by rw [at_]; rfl)) (.proved .sagas) rfl
      exact ⟨⟨fun _ => proved.2, proved.1⟩,
        (hooks_cons_other rfl).trans proved.2⟩
  | @waits pace proof at_ window =>
      have froze := shutting.calls (Or.inl (by rw [at_]; rfl)) (.froze proof) rfl
      exact ⟨⟨fun _ => froze.2, froze.1⟩, (hooks_cons_other rfl).trans froze.2⟩
  | @gaveUp pace proof at_ spent =>
      have froze := shutting.calls (Or.inl (by rw [at_]; rfl)) (.froze proof) rfl
      exact Shutting.faults froze.1 (froze.2 ▸ List.nil_prefix)
  | hosted at_ =>
      have calls := shutting.calls (Or.inr (by rw [at_]; rfl)) (.calls .feedStart) rfl
      exact ⟨calls.1, calls.2⟩
  | fed at_ => exact ⟨shutting.ordered, shutting.unhooked (Or.inr (by rw [at_]; rfl))⟩
  | job at_ exits =>
      have calls := shutting.calls (Or.inr (by rw [at_]; rfl)) (.calls .job) rfl
      exact ⟨calls.1, calls.2⟩
  | closes at_ failed =>
      have early : host.phase.before = true := by rcases at_ with at_ | at_ <;> rw [at_] <;> rfl
      have same : host.life.process.store = store := by
        rcases at_ with at_ | at_ <;> rw [at_] at walked <;> exact walked.2
      have faulted := shutting.calls (Or.inl early) (.faulted false) rfl
      refine ⟨⟨fun starts => (by cases starts), faulted.1⟩, ?_, same, failed⟩
      exact (hooks_cons _ _).trans (congrArg (· ++ [Hook.storeClose]) faulted.2)
  | faults at_ => exact Shutting.faults shutting.ordered (shutting.called at_)
  | stops at_ =>
      have cleared := barred.cleared (barred.behind (by rw [at_]; rfl))
      refine Shutting.stops shutting.ordered ?_ cleared
      rw [shutting.unhooked (Or.inr (by rw [at_]; rfl)), List.nil_append]
  | stopsNext at_ =>
      rw [at_] at walked
      exact Shutting.stops shutting.ordered walked.1 walked.2
  | salvagesNext at_ =>
      rw [at_] at walked
      exact Shutting.salvages shutting.ordered walked
  | closed at_ =>
      rw [at_] at walked
      refine ⟨⟨fun starts => (by cases starts), shutting.ordered⟩,
        Or.inl ⟨?_, walked.store, walked.failed⟩⟩
      exact (hooks_cons_other rfl).trans walked.hooks

variable {life : Life} {startNs : Nanos} {moves : List Move} {last : Runner} {code : ℕ}

/-- **The whole shutdown.**  The host of a run that ended without dying started nothing
behind a hook, and the run either was refused the store and wrote nothing to it, or walked the whole shutdown
behind a cleared barrier, or faulted and walked all of it behind what the graceful walk had
called.  Its code is the shutdown's own in the second case only. -/
theorem teardown_whole (alive : ∀ move ∈ moves, move ≠ .dies)
    (ran : (runner config).run (boot life startNs []) moves = some last)
    (ended : last.phase = .ended code) :
    StartsFirst last.acts ∧
      (Refused life.process.store last.life.process.store last.acts code ∨
        (code = last.gracefulCode config ∧ Cleared last.acts ∧
          hooks last.acts = teardown config.exitRun) ∨
        Salvaged config last.acts code []) := by
  have barred : Barred config (boot life startNs []) := barred_boot life startNs trivial
  have shutting : Shutting config life.process.store (boot life startNs []) :=
    ⟨⟨fun _ => rfl, fun starts => (by cases starts), trivial⟩, rfl, rfl⟩
  have kept := life_induct
    (fun turn (both : Barred config _ ∧ Shutting config life.process.store _) =>
      ⟨turn.barred both.1, turn.shutting both.1 both.2⟩) alive ⟨barred, shutting⟩ ran
  have walked := kept.2.walked
  rw [ended] at walked
  exact ⟨kept.2.ordered, walked⟩

namespace Sample

open Tickwright.Engine.Sample

/-- The venue's release raises, and the shutdown is walked again past a close that does. -/
def brokenStop : List Move :=
  slowBoot ++ trades ++ [.requestsStop, .stopSeen, .returns, .returns, .returns, .raises false,
    .returns, .returns, .returns, .returns, .returns, .returns, .raises false, .returns]

theorem brokenStop_salvaged :
    ∃ last, (runner traded).run (boot { process := unstarted } 0 []) brokenStop = some last ∧
      StartsFirst last.acts ∧ hooks last.acts =
        [.feedStop, .reconcileStop, .exitJobStop, .exchangeStop] ++ teardown false := by
  have lived : ((runner traded).run (boot { process := unstarted } 0 []) brokenStop).map
      (fun last => (last.phase, hooks last.acts)) = some (.ended 1,
        [.feedStop, .reconcileStop, .exitJobStop, .exchangeStop] ++ teardown false) := by
    decide +kernel
  obtain ⟨last, ran, is⟩ := Option.map_eq_some_iff.mp lived
  cases ended : last.phase with
  | ended code =>
      have alive : ∀ move ∈ brokenStop, move ≠ .dies := by
        simp [brokenStop, slowBoot, trades]
      exact ⟨last, ran, (teardown_whole alive ran ended).1, (Prod.mk.inj is).2⟩
  | _ => simp [ended] at is

end Sample

end Runner

end Tickwright.Engine
