/-
# Engine.Reconcile -- what a venue reading makes the reconciler publish

A pass looks at one saga, reads the venue by its cloid, and publishes synthetic
reports through the same handler every venue fact goes through.  Between the
read and each publish other reports may be handled, so a pass is not one step:
it opens (`opening`, or `inflightOpening` for the fast cycle), replays the fills
it read one at a time (`replica`), and closes on the saga as it then is
(`closing`).

The three absence trackers keep their source's rules for one cloid:

* a run of misses fires on the budget-exhausting one and starts over
  (`ConsecutiveMisses.recordAbsent`);
* the grace window only starts its clock on the first absence
  (`GraceWindow.recordAbsent_none`), and presence resets it;
* the ghost gate resets the window while the order is recent
  (`GhostGate.evaluate`).
-/
import Tickwright.Engine.Saga

namespace Tickwright.Engine

open Tickwright.Domain

set_option autoImplicit false

/-- The two spans and the retry budget the cycles judge absence by. -/
structure ReconcileConfig where
  inflightMaxAttempts : ℕ
  ghostGraceNs : Nanos
  recentOrderProtectionNs : Nanos

/-! ## Continuous absence -/

namespace ConsecutiveMisses

/-- Count one absent observation: whether the budget is exhausted, and the run
left behind. -/
def recordAbsent (limit misses : ℕ) : Bool × ℕ :=
  if misses + 1 < limit then (false, misses + 1) else (true, 0)

end ConsecutiveMisses

namespace GraceWindow

/-- Record absence at `nowNs`: whether the span has elapsed since the first
absence of this run, and the run left behind. -/
def recordAbsent (spanNs : Nanos) (firstAbsentNs : Option Nanos) (nowNs : Nanos) :
    Bool × Option Nanos :=
  if spanNs ≤ nowNs - firstAbsentNs.getD nowNs then (true, none)
  else (false, some (firstAbsentNs.getD nowNs))

/-- The first absence only starts the clock. -/
theorem recordAbsent_none {spanNs : Nanos} (positive : 0 < spanNs) (nowNs : Nanos) :
    recordAbsent spanNs none nowNs = (false, some nowNs) := by
  have short : ¬ spanNs ≤ nowNs - nowNs := by rw [sub_self]; exact not_le.mpr positive
  simp only [recordAbsent, Option.getD_none, if_neg short]

end GraceWindow

inductive GhostVerdict
  | isProtected
  | waiting
  | ghost
deriving DecidableEq, Repr

namespace GhostGate

/-- Rule on one absent reading: the verdict, and the grace clock left behind. -/
def evaluate (config : ReconcileConfig) (firstAbsentNs : Option Nanos) (nowNs : Nanos)
    (lastEventNs : Option Nanos) : GhostVerdict × Option Nanos :=
  if lastEventNs.any fun last => nowNs - last < config.recentOrderProtectionNs then
    (.isProtected, none)
  else
    match GraceWindow.recordAbsent config.ghostGraceNs firstAbsentNs nowNs with
    | (true, since) => (.ghost, since)
    | (false, since) => (.waiting, since)

end GhostGate

/-! ## Verdicts -/

namespace Reconciler

/-- A verdict dressed as the synthetic status report that carries it. -/
def verdict (order : Order) (status : OrderState) (reason : String) (nowNs : Nanos) :
    OrderStatusReport where
  cloid := order.cloid
  symbol := order.symbol
  status := status
  reason := some ("reconciliation: " ++ reason)
  reconciliation := true
  tsEvent := nowNs

def failedVerdict (order : Order) (nowNs : Nanos) : OrderStatusReport :=
  verdict order .failed "venue has no record of this cloid" nowNs

def submittedBridge (order : Order) (nowNs : Nanos) : OrderStatusReport :=
  verdict order .submitted "venue record proves the send landed" nowNs

/-- The terminal a ghost resolves to: our own durable marker first, then the
fills that happened, then truly gone. -/
def ghostStatus (order : Order) : OrderState × String :=
  if order.cancelRequested then (.cancelled, "ghost: vanished after a requested cancel")
  else if order.state = .partiallyFilled then (.cancelled, "ghost: vanished with fills preserved")
  else (.rejected, "ghost: vanished from the venue")

/-- `_resolve_ghost`. -/
def resolveGhost (order : Order) (nowNs : Nanos) : OrderStatusReport :=
  verdict order (ghostStatus order).1 (ghostStatus order).2 nowNs

/-! ## One saga against one view -/

/-- A pass's own memory of one cloid. -/
structure Absence where
  misses : ℕ := 0
  firstAbsentNs : Option Nanos := none
deriving DecidableEq

/-- How `_adopt` opens: it publishes a `FAILED` and is done, or it goes on to
replay, behind the bridge a `PENDING` saga needs. -/
inductive Opening
  | failed (report : OrderStatusReport)
  | replay (bridge : Option OrderStatusReport)
deriving DecidableEq

/-- `_adopt` up to its replay. -/
def opening (order : Order) (view : VenueOrderView) (nowNs : Nanos) : Opening :=
  if view.status = none ∧ view.fills = [] ∧ order.state.isWorking = false then
    .failed (failedVerdict order nowNs)
  else
    .replay (if order.state = .pending then some (submittedBridge order nowNs) else none)

/-- A record resets the grace clock as `_adopt` opens. -/
def Absence.seen (absence : Absence) (view : VenueOrderView) : Absence :=
  if view.status.isSome then { absence with firstAbsentNs := none } else absence

/-- `_heal_fills`: a fill replayed with its provenance. -/
def replica (fill : FillReport) : ExecutionReport := .fill { fill with reconciliation := true }

/-- `_adopt` past its replay, on the saga as it is by then: what it publishes
last, and the absence run left behind. -/
def closing (config : ReconcileConfig) (order : Order) (view : VenueOrderView)
    (lastEventNs : Option Nanos) (absence : Absence) (nowNs : Nanos) :
    Option OrderStatusReport × Absence :=
  match view.status with
  | none =>
      if order.state.isWorking then
        match GhostGate.evaluate config absence.firstAbsentNs nowNs lastEventNs with
        | (.ghost, since) => (some (resolveGhost order nowNs), { absence with firstAbsentNs := since })
        | (_, since) => (none, { absence with firstAbsentNs := since })
      else
        (none, { absence with firstAbsentNs := none })
  | some status =>
      -- A `LIVE` record beside fills is stale: the fills are the truth.
      if status.status = .live ∧ view.fills ≠ [] then (none, absence)
      else (some { status with reconciliation := true }, absence)

/-- `_resolve_inflight` up to its replay: with a record it adopts; without one
only the budget-exhausting miss draws the `FAILED` verdict, whatever state the
saga is in by then. -/
def inflightOpening (config : ReconcileConfig) (order : Order) (view : VenueOrderView)
    (absence : Absence) (nowNs : Nanos) : Option Opening × Absence :=
  if view.hasRecord then
    (some (opening order view nowNs), { absence with misses := 0 })
  else
    match ConsecutiveMisses.recordAbsent config.inflightMaxAttempts absence.misses with
    | (true, misses) => (some (.failed (failedVerdict order nowNs)), { absence with misses := misses })
    | (false, misses) => (none, { absence with misses := misses })

/-! ## What a pass can publish -/

/-- `_adopt` gives up on a saga only where the reading holds nothing at all. -/
theorem opening_failed {order : Order} {view : VenueOrderView} {nowNs : Nanos}
    {report : OrderStatusReport} (opens : opening order view nowNs = .failed report) :
    view.status = none ∧ view.fills = [] ∧ order.state.isWorking = false ∧
      report = failedVerdict order nowNs := by
  simp only [opening] at opens
  split at opens
  · rename_i empty
    cases opens
    exact ⟨empty.1, empty.2.1, empty.2.2, rfl⟩
  · cases opens

theorem opening_replay {order : Order} {view : VenueOrderView} {nowNs : Nanos}
    {bridge : Option OrderStatusReport} (opens : opening order view nowNs = .replay bridge) :
    bridge = if order.state = .pending then some (submittedBridge order nowNs) else none := by
  simp only [opening] at opens
  split at opens
  · cases opens
  · cases opens; rfl

/-- The fast cycle gives up only on a reading that holds nothing at all. -/
theorem inflightOpening_failed {config : ReconcileConfig} {order : Order} {view : VenueOrderView}
    {absence after : Absence} {nowNs : Nanos} {report : OrderStatusReport}
    (opens : inflightOpening config order view absence nowNs = (some (.failed report), after)) :
    view.status = none ∧ view.fills = [] ∧ report = failedVerdict order nowNs := by
  simp only [inflightOpening] at opens
  by_cases there : view.hasRecord = true
  · rw [if_pos there] at opens
    simp only [Prod.mk.injEq, Option.some.injEq] at opens
    obtain ⟨none_, nothing, _, is⟩ := opening_failed opens.1
    exact ⟨none_, nothing, is⟩
  · rw [if_neg there] at opens
    have empty : view.status = none ∧ view.fills = [] := by
      simp only [VenueOrderView.hasRecord, Bool.or_eq_true, not_or, Bool.not_eq_true,
        Option.isSome_eq_false_iff, Option.isNone_iff_eq_none, Bool.not_eq_false',
        List.isEmpty_iff] at there
      exact there
    cases counted : ConsecutiveMisses.recordAbsent config.inflightMaxAttempts absence.misses with
    | mk fired misses =>
        rw [counted] at opens
        cases fired with
        | false => cases opens
        | true => cases opens; exact ⟨empty.1, empty.2, rfl⟩

theorem inflightOpening_replay {config : ReconcileConfig} {order : Order} {view : VenueOrderView}
    {absence after : Absence} {nowNs : Nanos} {bridge : Option OrderStatusReport}
    (opens : inflightOpening config order view absence nowNs = (some (.replay bridge), after)) :
    bridge = if order.state = .pending then some (submittedBridge order nowNs) else none := by
  simp only [inflightOpening] at opens
  split at opens
  · simp only [Prod.mk.injEq, Option.some.injEq] at opens
    exact opening_replay opens.1
  · split at opens
    · cases opens
    · cases opens

/-- **What a pass closes on**: a ghost's terminal for a working saga whose
record is gone, or the record's own status, `LIVE` beside fills left out. -/
theorem closing_some {config : ReconcileConfig} {order : Order} {view : VenueOrderView}
    {lastEventNs : Option Nanos} {absence after : Absence} {nowNs : Nanos}
    {report : OrderStatusReport}
    (closes : closing config order view lastEventNs absence nowNs = (some report, after)) :
    (view.status = none ∧ order.state.isWorking = true ∧ report = resolveGhost order nowNs) ∨
    (∃ status, view.status = some status ∧ (status.status = .live → view.fills = []) ∧
      report = { status with reconciliation := true }) := by
  simp only [closing] at closes
  cases there : view.status with
  | none =>
      simp only [there] at closes
      split at closes
      · rename_i working
        split at closes
        · cases closes; exact Or.inl ⟨rfl, working, rfl⟩
        · cases closes
      · cases closes
  | some status =>
      simp only [there] at closes
      split at closes
      · cases closes
      · rename_i fresh
        cases closes
        refine Or.inr ⟨status, rfl, fun isLive => ?_, rfl⟩
        by_contra fills
        exact fresh ⟨isLive, fills⟩

end Reconciler

end Tickwright.Engine
