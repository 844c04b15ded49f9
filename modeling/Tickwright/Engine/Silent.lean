/-
# Engine.Silent -- which handlers place no order

A script is `Silent` when no effect of it reaches `Exchange.place`; a cancel of it may
go out.  Every input but a placement plays a silent script (`silent_others`), and so does
a placement that the guard, the barrier or an exit run denies (`silent_denied`).
-/
import Tickwright.Engine.Life

namespace Tickwright.Engine

open Tickwright.Domain Tickwright.Theory Tickwright.Store

set_option autoImplicit false

def Input.isPlace : Input → Bool
  | .place .. => true
  | _ => false

/-- No effect of the script reaches `Exchange.place`. -/
def Silent (effects : List Effect) : Prop := ∀ effect ∈ effects, ∀ request, effect ≠ .place request

theorem Silent.placed {effects : List Effect} (silent : Silent effects) (process : Process) :
    (process.play effects).placed = process.placed := by
  induction effects generalizing process with
  | nil => rfl
  | cons effect rest ih =>
      have tail := ih (fun other member => silent other (List.mem_cons_of_mem _ member))
        (perform process effect)
      refine Eq.trans tail ?_
      cases effect with
      | place request => exact absurd rfl (silent _ List.mem_cons_self request)
      | memory _ | write _ | announce _ | cancel _ => rfl

theorem Silent.take {effects : List Effect} (silent : Silent effects) (steps : ℕ) :
    Silent (effects.take steps) :=
  fun effect member => silent effect (List.mem_of_mem_take member)

@[simp] theorem silent_nil : Silent [] := fun _ none_ => by cases none_

@[simp] theorem silent_cons {effect : Effect} {rest : List Effect} :
    Silent (effect :: rest) ↔ (∀ request, effect ≠ .place request) ∧ Silent rest :=
  List.forall_mem_cons

@[simp] theorem silent_append {first second : List Effect} :
    Silent (first ++ second) ↔ Silent first ∧ Silent second :=
  List.forall_mem_append

@[simp] theorem silent_checkpoint (memory : Memory) (order : Order) (nowNs : Nanos) :
    Silent (checkpoint memory order nowNs) := by
  simp [checkpoint]

@[simp] theorem silent_raiseSeq (memory : Memory) (strategyId : StrategyId) (seq : ℕ) :
    Silent (raiseSeq memory strategyId seq) := by
  simp [raiseSeq]

@[simp] theorem silent_checkpointEach (memory : Memory) (nowNs : Nanos) (orders : List Order) :
    Silent (checkpointEach memory nowNs orders) := by
  induction orders generalizing memory with
  | nil => exact silent_nil
  | cons order rest ih => simp [checkpointEach, ih]

theorem silent_operatorMarks (memory : Memory) (nowNs : Nanos) (resting : List Resting) :
    Silent (operatorMarks memory nowNs resting).1 := by
  induction resting generalizing memory with
  | nil => exact silent_nil
  | cons order rest ih =>
      cases order with
      | external symbol venueOid => exact ih memory
      | ours cloid symbol venueOid =>
          simp only [operatorMarks]
          split
          · exact ih memory
          · simp [ih]

theorem silent_onStatus (memory : Memory) (report : OrderStatusReport) (nowNs : Nanos) :
    Silent (onStatus memory report nowNs).effects := by
  simp only [onStatus]
  split
  · exact silent_nil
  · split
    · exact silent_nil
    · split
      · exact silent_nil
      · split
        · exact silent_nil
        · exact silent_nil
        · simp [commitStatus]

theorem silent_commitFolds {config : Config} {memory : Memory} {order : Option Order}
    {pieces : List (BookableFill × Side)} {tsNs : Nanos} {effects : List Effect}
    (committed : commitFolds config memory order pieces tsNs = .ok effects) : Silent effects := by
  obtain ⟨folded, changes, -, rfl⟩ := commitFolds_cases committed
  simp

theorem silent_onFill (config : Config) (memory : Memory) (store : Store) (report : FillReport)
    (nowNs : Nanos) : Silent (onFill config memory store report nowNs).effects := by
  simp only [onFill]
  split
  · exact silent_nil
  · split
    · exact silent_nil
    · exact silent_nil
    · split
      · simp
      · rename_i effects committed
        simp only [checkpointFill] at committed
        split at committed
        · cases committed
        · split at committed
          · cases committed
          · simp [silent_commitFolds committed]

theorem silent_ofVerb {verb : Except Fault (List Effect)}
    (silent : ∀ effects, verb = .ok effects → Silent effects) :
    Silent (Script.ofVerb verb).effects := by
  cases verb with
  | error fault => exact silent_nil
  | ok effects => exact silent effects rfl

/-- **Only a placement places an order.** -/
theorem silent_others {deriveCloid : SignalId → Cloid} {config : Config} (process : Process)
    (nowNs : Nanos) {input : Input} (other : input.isPlace = false) :
    Silent (scriptOf deriveCloid config process nowNs input).effects := by
  cases input with
  | place gates signal verdict => cases other
  | cancel signal =>
      simp only [scriptOf, onCancel]
      split
      · exact silent_nil
      · split
        · exact silent_nil
        · simp
  | cancelAll signal =>
      simp only [scriptOf, onCancelAll]
      split <;> simp
  | report report =>
      cases report with
      | status report => exact silent_onStatus _ _ _
      | fill report => exact silent_onFill _ _ _ _ _
      | refused cloid symbol => exact silent_nil
  | emit strategyId seq => exact silent_raiseSeq _ _ _
  | operatorCancel resting => simp [scriptOf, cancelForOperator, silent_operatorMarks]
  | funding accrual =>
      refine silent_ofVerb fun effects accrued => ?_
      simp only [checkpointFunding] at accrued
      split at accrued
      · cases accrued
      · split at accrued
        · cases accrued
          exact silent_nil
        · cases accrued
          simp
  | heal fills cash snapshot =>
      refine silent_ofVerb fun effects healed => ?_
      simp only [checkpointHeal] at healed
      split at healed
      · cases healed
      · split at healed
        · cases healed
        · cases healed
          exact silent_nil
        · cases healed
          simp
  | leftover symbol =>
      refine silent_ofVerb fun effects moved => ?_
      simp only [checkpointLeftover] at moved
      split at moved
      · cases moved
        exact silent_nil
      · exact silent_commitFolds moved

/-- A placement that is denied, by a gate or by the guard, places nothing. -/
theorem silent_gated {deriveCloid : SignalId → Cloid} {config : Config} (process : Process)
    {gates : Gates} {signal : PlaceSignal} {verdict : GuardDecision} (nowNs : Nanos)
    (denied : ∃ reason, gatedDecision gates signal verdict = .denied reason) :
    Silent (scriptOf deriveCloid config process nowNs (.place gates signal verdict)).effects := by
  obtain ⟨reason, gated⟩ := denied
  simp only [scriptOf, onPlace, placeDecision, gated]
  split
  · exact silent_nil
  · simp [denyOrder]

/-- The gates never lift a guard's denial. -/
theorem silent_denied {deriveCloid : SignalId → Cloid} {config : Config} (process : Process)
    {gates : Gates} {signal : PlaceSignal} {verdict : GuardDecision} (nowNs : Nanos)
    (denied : ∃ reason, verdict = .denied reason) :
    Silent (scriptOf deriveCloid config process nowNs (.place gates signal verdict)).effects := by
  obtain ⟨reason, rfl⟩ := denied
  refine silent_gated process nowNs ?_
  unfold gatedDecision
  split
  · exact ⟨_, rfl⟩
  · split
    · exact ⟨_, rfl⟩
    · split
      · exact ⟨_, rfl⟩
      · exact ⟨_, rfl⟩

end Tickwright.Engine
