/-
# Engine.LoopEnds -- what is known of a flatten loop that is over

A loop returns that it did not give up in one place, `_left` on a flat read, and no
other step touches a loop that has returned.  `Shuts` says so of one step and `Shut`
of a state; neither asks anything of the closes of an earlier life, which
`Engine.OneClose` has to.
-/
import Tickwright.Engine.OneClose

namespace Tickwright.Engine

open Tickwright.Domain Tickwright.Theory Tickwright.Store

set_option autoImplicit false

namespace JobMove

/-- The move is the engine's own, no loop's. -/
def isMeanwhile : JobMove → Bool
  | .handles .. | .drops _ | .sent _ => true
  | .hears (.operatorCancel _) _ => false
  | .hears .. => true
  | .begins .. | .drained .. | .decides _ | .passBegins _ | .passEnds .. | .readFails ..
  | .reads .. | .prices .. | .gapDrained _ | .accountBegins _ | .accountEnds _ | .closes ..
  | .closed .. | .closeRaises _ => false

end JobMove

/-! ## What a step does to a loop that is over -/

/-- Nothing moved is lost, and a loop that ended without giving up was over, or ends
on a flat read with its leftover moved. -/
structure Shuts (before after : Job) : Prop where
  moved : ∀ symbol ∈ before.moved, symbol ∈ after.moved
  ends : ∀ symbol, (after.loops symbol).stage = .ended false →
    after.loops symbol = before.loops symbol ∨
      ((after.loops symbol).size = 0 ∧ symbol ∈ after.moved)

/-- Every loop that ended without giving up did so flat, its leftover moved. -/
def Shut (job : Job) : Prop :=
  ∀ symbol, (job.loops symbol).stage = .ended false →
    (job.loops symbol).size = 0 ∧ symbol ∈ job.moved

theorem Shuts.still {before after : Job} (loops : after.loops = before.loops)
    (moved : after.moved = before.moved) : Shuts before after := by
  refine ⟨fun symbol was => ?_, fun symbol _ => .inl ?_⟩
  · rw [moved]
    exact was
  · rw [loops]

theorem Shuts.goes {before turned : Job} {symbol : Symbol} {loop : Loop}
    (loops : turned.loops = before.loops) (moved : turned.moved = before.moved)
    (lasts : loop.stage ≠ .ended false) : Shuts before (turned.setLoop symbol loop) := by
  refine ⟨fun other was => ?_, fun other ends => ?_⟩
  · rw [Job.setLoop_moved, moved]
    exact was
  · by_cases here : other = symbol
    · subst here
      rw [Job.setLoop_self] at ends
      exact (lasts ends).elim
    · rw [Job.setLoop_ne _ here, loops]
      exact .inl rfl

theorem Shuts.shut {before after : Job} (shuts : Shuts before after) (shut : Shut before) :
    Shut after := by
  intro symbol ends
  rcases shuts.ends symbol ends with same | flat
  · rw [same] at ends
    have was := shut symbol ends
    rw [same]
    exact ⟨was.1, shuts.moved symbol was.2⟩
  · exact flat

section Job

variable {deriveCloid : SignalId → Cloid} {config : Config} {accountTruth : Bool}

theorem engineStep_loops {before after : Job} {label : Label}
    (stepped : before.engineStep deriveCloid config label = some after) :
    after.loops = before.loops ∧ after.moved = before.moved := by
  obtain ⟨life, _, rfl⟩ := Option.map_eq_some_iff.mp stepped
  exact ⟨rfl, rfl⟩

/-- What reaches the engine beside the loops leaves them as they are. -/
theorem step_meanwhile {before after : Job} {move : JobMove} (between : move.isMeanwhile = true)
    (stepped : before.step deriveCloid config accountTruth move = some after) :
    after.loops = before.loops ∧ after.moved = before.moved := by
  cases move with
  | handles signal verdict nowNs =>
      obtain ⟨-, handled, taken, rfl⟩ := Job.step_handles stepped
      have same := engineStep_loops taken
      exact ⟨same.1, same.2⟩
  | drops signal =>
      cases stepped
      exact ⟨rfl, rfl⟩
  | hears input nowNs =>
      simp only [Job.step] at stepped
      split at stepped
      · exact engineStep_loops stepped
      · cases stepped
  | sent nowNs => exact engineStep_loops stepped
  | _ => cases between

theorem left_shuts (job : Job) (symbol : Symbol) (size : Decimal) (reason : Option DryReason)
    (nowNs : Nanos) : Shuts job (job.left deriveCloid config symbol size reason nowNs) := by
  simp only [Job.left]
  split
  · rename_i flat
    subst flat
    split
    · exact Shuts.goes rfl rfl (by simp)
    · refine ⟨fun other was => List.mem_append_left _ was, fun other ends => ?_⟩
      by_cases here : other = symbol
      · subst here
        exact .inr (by simp)
      · exact .inl (Job.setLoop_ne _ here _)
  · refine Shuts.goes rfl rfl fun ends => ?_
    rcases (job.loops symbol).again_stage size reason with is | is <;> rw [is] at ends <;>
      cases ends

theorem resume_shuts (job : Job) (symbol : Symbol) (nowNs : Nanos) :
    Shuts job (job.resume deriveCloid config symbol nowNs) := by
  simp only [Job.resume]
  split
  · exact left_shuts ..
  · exact Shuts.goes rfl rfl (by simp)

theorem decided_shuts (job : Job) (symbol : Symbol) (verdict : VerdictOn) :
    Shuts job (job.decided symbol verdict) := by
  simp only [Job.decided]
  repeat' split
  all_goals exact Shuts.goes rfl rfl (by simp)

theorem sizes_shuts {job turned : Job} (loops : turned.loops = job.loops)
    (moved : turned.moved = job.moved) (symbol : Symbol) {gap : LoopStage}
    (lasts : gap ≠ .ended false) : Shuts job (turned.sizes symbol gap) := by
  simp only [Job.sizes]
  split
  · exact Shuts.goes loops moved (by simp)
  · exact Shuts.goes loops moved lasts

theorem accounted_shuts {job turned : Job} (loops : turned.loops = job.loops)
    (moved : turned.moved = job.moved) (symbol : Symbol) (second : Bool) :
    Shuts job (turned.accounted symbol second) :=
  sizes_shuts loops moved symbol (by cases second <;> simp)

theorem close_shuts {job next : Job} {symbol : Symbol} {nowNs : Nanos}
    (closed : job.close deriveCloid config symbol nowNs = some next) : Shuts job next := by
  simp only [Job.close] at closed
  split at closed
  · cases closed
  · obtain ⟨recorded, stepped, rfl⟩ := Option.map_eq_some_iff.mp closed
    have same := engineStep_loops stepped
    exact Shuts.goes same.1 same.2 (by simp)

/-- **No step of the loops ends one as flat that did not read its symbol flat and
move its leftover.** -/
theorem step_shuts {before after : Job} {move : JobMove}
    (stepped : before.step deriveCloid config accountTruth move = some after) :
    Shuts before after := by
  cases move with
  | handles signal verdict nowNs =>
      have same := step_meanwhile rfl stepped
      exact .still same.1 same.2
  | drops signal =>
      have same := step_meanwhile rfl stepped
      exact .still same.1 same.2
  | sent nowNs =>
      have same := step_meanwhile rfl stepped
      exact .still same.1 same.2
  | hears input nowNs =>
      simp only [Job.step] at stepped
      split at stepped
      · have same := engineStep_loops stepped
        exact .still same.1 same.2
      · cases stepped
  | begins symbol size =>
      simp only [Job.step] at stepped
      split at stepped
      · cases stepped
        exact .goes rfl rfl (by simp)
      · cases stepped
  | drained symbol nowNs =>
      simp only [Job.step] at stepped
      split at stepped
      · cases stepped
        exact resume_shuts ..
      · cases stepped
  | decides symbol =>
      simp only [Job.step] at stepped
      split at stepped
      · cases stepped
        exact decided_shuts ..
      · cases stepped
  | passBegins symbol =>
      simp only [Job.step] at stepped
      split at stepped
      · cases stepped
        exact .goes rfl rfl (by simp)
      · cases stepped
  | passEnds symbol result =>
      simp only [Job.step] at stepped
      split at stepped
      · rename_i verdict stage
        split at stepped
        · cases stepped
          exact .goes rfl rfl (by simp)
        · cases stepped
          refine .goes rfl rfl fun ends => ?_
          rcases (before.loops symbol).readFailed_stage (decide (result = .rateLimited))
            (.deciding verdict) with is | is <;> rw [is] at ends <;> cases ends
      · cases stepped
  | readFails symbol rateLimited =>
      simp only [Job.step] at stepped
      split at stepped
      · rename_i reason stage
        cases stepped
        refine .goes rfl rfl fun ends => ?_
        rcases (before.loops symbol).readFailed_stage rateLimited (.reading reason) with is | is <;>
          rw [is] at ends <;> cases ends
      · cases stepped
  | reads symbol size nowNs =>
      simp only [Job.step] at stepped
      split at stepped
      · cases stepped
        exact left_shuts ..
      · cases stepped
  | prices symbol seen =>
      simp only [Job.step] at stepped
      split at stepped
      · split at stepped
        · cases stepped
          exact sizes_shuts rfl rfl symbol (by simp)
        · cases stepped
          exact .goes rfl rfl (by simp)
      · cases stepped
  | gapDrained symbol =>
      simp only [Job.step] at stepped
      split at stepped
      · cases stepped
        exact sizes_shuts rfl rfl symbol (by simp)
      · cases stepped
  | accountBegins symbol =>
      simp only [Job.step] at stepped
      split at stepped
      · split at stepped
        · cases stepped
          exact .goes rfl rfl (by simp)
        · cases stepped
          exact accounted_shuts rfl rfl symbol _
      · split at stepped
        · cases stepped
        · cases stepped
          exact accounted_shuts rfl rfl symbol _
      · cases stepped
  | accountEnds symbol =>
      simp only [Job.step] at stepped
      split at stepped
      · rename_i second stage
        cases stepped
        exact @accounted_shuts before { before with turn := none } rfl rfl symbol second
      · cases stepped
  | closes symbol nowNs =>
      simp only [Job.step] at stepped
      split at stepped
      · exact close_shuts stepped
      · cases stepped
  | closed symbol refusal =>
      simp only [Job.step] at stepped
      split at stepped
      · cases stepped
        exact .goes rfl rfl (by simp)
      · cases stepped
  | closeRaises symbol =>
      simp only [Job.step] at stepped
      split at stepped
      · cases stepped
        exact .goes rfl rfl (by simp)
      · cases stepped

end Job

end Tickwright.Engine
