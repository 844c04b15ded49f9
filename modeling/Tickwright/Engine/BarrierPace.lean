/-
# Engine.BarrierPace -- how often the startup barrier asks

A barrier that freezes waits and asks again, until its window is spent.  Its waits double
from one second and never pass thirty (`delayNs`), and it looks at the window only behind
an attempt, so an attempt is always made.

* `barrier_paced`: whatever the venue answers and however late the waits end, the waits
  are the first so many of that row, all but the last fit in the window, and the attempts
  that froze are at most seven and one for each thirty seconds of the window.
-/
import Tickwright.Engine.BootGate
import Mathlib.Algebra.BigOperators.Group.List.Basic
import Mathlib.Tactic.Linarith

namespace Tickwright.Engine

open Tickwright.Domain Tickwright.Theory Tickwright.Store

set_option autoImplicit false

namespace Runner

variable {config : RunnerConfig} {host after : Runner}

/-! ## The row of waits -/

/-- The wait behind the attempt of this number. -/
def delayNs (attempt : ℕ) : ℤ := min (2 ^ attempt * initialBackoffNs) maxBackoffNs

/-- The first `count` waits. -/
def delaysNs (count : ℕ) : List ℤ := (List.range count).map delayNs

theorem delayNs_eq (attempt : ℕ) :
    delayNs attempt = min (2 ^ attempt * 1000000000) 30000000000 := rfl

theorem delayNs_succ (attempt : ℕ) :
    delayNs (attempt + 1) = min (2 * delayNs attempt) maxBackoffNs := by
  have double : (2 : ℤ) ^ (attempt + 1) = 2 * 2 ^ attempt := by rw [pow_succ, mul_comm]
  show _ = min (2 * delayNs attempt) (30000000000 : ℤ)
  rw [delayNs_eq, delayNs_eq, double]
  omega

theorem delaysNs_succ (count : ℕ) : delaysNs (count + 1) = delaysNs count ++ [delayNs count] := by
  simp [delaysNs, List.range_succ]

/-- Behind the fifth, every wait is the longest. -/
theorem delayNs_long {attempt : ℕ} (late : 5 ≤ attempt) : delayNs attempt = 30000000000 := by
  have grown : (2 : ℤ) ^ 5 ≤ 2 ^ attempt := pow_le_pow_right₀ (by omega) late
  rw [delayNs_eq]
  omega

theorem delayNs_pos (attempt : ℕ) : 0 < delayNs attempt := by
  have grown : (1 : ℤ) ≤ 2 ^ attempt := one_le_pow₀ (by omega)
  rw [delayNs_eq]
  omega

theorem delaysNs_sum_nonneg (count : ℕ) : 0 ≤ (delaysNs count).sum := by
  refine List.sum_nonneg fun delay member => ?_
  obtain ⟨attempt, _, rfl⟩ := List.mem_map.mp member
  exact (delayNs_pos attempt).le

theorem delaysNs_sum (count : ℕ) : 30000000000 * ((count : ℤ) - 5) ≤ (delaysNs count).sum := by
  induction count with
  | zero => decide
  | succ count ih =>
      rw [delaysNs_succ, List.sum_append, List.sum_singleton]
      have positive := delayNs_pos count
      by_cases late : 5 ≤ count
      · have long := delayNs_long late
        omega
      · have nonneg := delaysNs_sum_nonneg count
        omega

/-! ## The barrier's own waits -/

/-- The waits of a life, oldest first. -/
def waits (acts : List Act) : List ℤ :=
  acts.reverse.filterMap fun
    | .waits delayNs => some delayNs
    | _ => none

/-- Whether an act is an attempt that froze. -/
def Act.isFroze : Act → Bool
  | .froze _ => true
  | _ => false

/-- How many attempts froze. -/
def attempts (acts : List Act) : ℕ := acts.countP Act.isFroze

/-- An act that is no wait and no frozen attempt. -/
def Act.unpaced : Act → Bool
  | .waits _ | .froze _ => false
  | _ => true

/-- How far the barrier is, by what the run waits for.  Every wait but the last began
inside the window. -/
structure Waited (config : RunnerConfig) (acts : List Act) (count : ℕ) : Prop where
  waits : waits acts = delaysNs count
  fits : ∀ earlier, count = earlier + 1 → (delaysNs earlier).sum < config.timeoutNs

/-- The window of a barrier began when `began` says, and its waits have passed. -/
structure Window (config : RunnerConfig) (pace : Pace) (count : ℕ) (now : ℤ) : Prop where
  next : pace.delayNs = delayNs count
  passed : ∃ began : ℤ, pace.deadlineNs = began + config.timeoutNs ∧
    began + (delaysNs count).sum ≤ now

def PacedAt (config : RunnerConfig) (acts : List Act) (now : ℤ) : Phase → Prop
  | .locking | .admitting | .recovering | .busStarting | .exchangeStarting =>
      waits acts = [] ∧ attempts acts = 0
  | .proving pace _ => ∃ count, Waited config acts count ∧ attempts acts = count ∧
      Window config pace count now
  | .backingOff pace untilNs => ∃ count, Waited config acts count ∧ attempts acts = count ∧
      Window config pace count untilNs
  | .hosting | .feeding | .running | .stopping _ | .salvaging .. | .closing _ | .ended _ =>
      ∃ count, Waited config acts count ∧ attempts acts ≤ count + 1

/-- **The barrier keeps its pace.** -/
def Paced (config : RunnerConfig) (host : Runner) : Prop :=
  PacedAt config host.acts host.nowNs host.phase

theorem waits_append (newer older : List Act) :
    waits (newer ++ older) = waits older ++ waits newer := by
  unfold waits
  rw [List.reverse_append, List.filterMap_append]

/-- Acts that are neither leave the pace alone. -/
theorem unpaced_append {new acts : List Act} (unpaced : ∀ act ∈ new, act.unpaced = true) :
    waits (new ++ acts) = waits acts ∧ attempts (new ++ acts) = attempts acts := by
  induction new with
  | nil => exact ⟨rfl, rfl⟩
  | cons act rest ih =>
      obtain ⟨same, count⟩ := ih fun other member => unpaced other (List.mem_cons_of_mem _ member)
      have quiet := unpaced act List.mem_cons_self
      have none_ : waits [act] = [] := by cases act <;> first | rfl | cases quiet
      have other : act.isFroze = false := by cases act <;> first | rfl | cases quiet
      constructor
      · rw [List.cons_append, ← List.singleton_append, waits_append, same, none_, List.append_nil]
      · unfold attempts at count ⊢
        rw [List.cons_append, List.countP_cons, count, other]
        rfl

theorem unpaced_of_shuts {act : Act} (shuts : act.shuts = true) : act.unpaced = true := by
  cases act <;> first | rfl | cases shuts

theorem PacedAt.later {acts : List Act} {now later : ℤ} {phase : Phase}
    (paced : PacedAt config acts now phase) (le : now ≤ later) :
    PacedAt config acts later phase := by
  cases phase with
  | proving pace proof =>
      obtain ⟨count, waited, asked, next, began, window, passed⟩ := paced
      exact ⟨count, waited, asked, next, began, window, passed.trans le⟩
  | locking | admitting | recovering | busStarting | exchangeStarting | backingOff _ _ | hosting
  | feeding | running | stopping _ | salvaging _ _ | closing _ | ended _ => exact paced

theorem Waited.append {acts new : List Act} {count : ℕ} (waited : Waited config acts count)
    (unpaced : ∀ act ∈ new, act.unpaced = true) : Waited config (new ++ acts) count :=
  ⟨(unpaced_append unpaced).1.trans waited.waits, waited.fits⟩

theorem PacedAt.append {acts new : List Act} {now : ℤ} {phase : Phase}
    (paced : PacedAt config acts now phase) (unpaced : ∀ act ∈ new, act.unpaced = true) :
    PacedAt config (new ++ acts) now phase := by
  have ⟨same, count⟩ : waits (new ++ acts) = _ ∧ attempts (new ++ acts) = _ :=
    unpaced_append unpaced
  cases phase with
  | locking | admitting | recovering | busStarting | exchangeStarting =>
      exact ⟨same.trans paced.1, count.trans paced.2⟩
  | proving pace proof | backingOff pace untilNs =>
      obtain ⟨times, waited, asked, window⟩ := paced
      exact ⟨times, waited.append unpaced, count.trans asked, window⟩
  | hosting | feeding | running | stopping _ | salvaging _ _ | closing _ | ended _ =>
      obtain ⟨times, waited, asked⟩ := paced
      exact ⟨times, waited.append unpaced, count.trans_le asked⟩

/-- What every phase says of the acts. -/
theorem PacedAt.whole {acts : List Act} {now : ℤ} {phase : Phase}
    (paced : PacedAt config acts now phase) :
    ∃ count, Waited config acts count ∧ attempts acts ≤ count + 1 := by
  cases phase with
  | locking | admitting | recovering | busStarting | exchangeStarting =>
      exact ⟨0, ⟨paced.1, fun _ none_ => by cases none_⟩, by rw [paced.2]; omega⟩
  | proving pace proof | backingOff pace untilNs =>
      obtain ⟨count, waited, asked, _⟩ := paced
      exact ⟨count, waited, by omega⟩
  | hosting | feeding | running | stopping _ | salvaging _ _ | closing _ | ended _ => exact paced

theorem Paced.shuts
    (paced : ∃ count, Waited config host.acts count ∧ attempts host.acts ≤ count + 1)
    (shuts : Shuts host after) : Paced config after := by
  obtain ⟨count, waited, asked⟩ := paced
  obtain ⟨new, acts, kind⟩ := shuts.acts
  have unpaced : ∀ act ∈ new, act.unpaced = true :=
    fun act member => unpaced_of_shuts (kind act member)
  have late := shuts.late
  have held : ∃ times, Waited config after.acts times ∧ attempts after.acts ≤ times + 1 :=
    ⟨count, acts ▸ waited.append unpaced, acts ▸ (unpaced_append unpaced).2.trans_le asked⟩
  unfold Paced
  cases phase : after.phase <;> rw [phase] at late <;> first | exact held | cases late

/-- An attempt that froze, and the wait behind it. -/
theorem PacedAt.waits {pace : Pace} {proof : Proof}
    (paced : PacedAt config host.acts host.nowNs (.proving pace proof))
    (window : host.nowNs < pace.deadlineNs) :
    PacedAt config (.waits pace.delayNs :: .froze proof :: host.acts) host.nowNs
      (.backingOff { pace with delayNs := min (2 * pace.delayNs) maxBackoffNs }
        (host.nowNs + pace.delayNs)) := by
  obtain ⟨count, ⟨waited, fits⟩, asked, next, began, deadline, passed⟩ := paced
  refine ⟨count + 1, ⟨?_, fun earlier same => ?_⟩, ?_, ?_, began, deadline, ?_⟩
  · have behind : Runner.waits (.waits pace.delayNs :: .froze proof :: host.acts) =
        Runner.waits host.acts ++ [(pace.delayNs : ℤ)] :=
      waits_append [.waits pace.delayNs, .froze proof] host.acts
    rw [behind, waited, delaysNs_succ, next]
  · obtain rfl : count = earlier := Nat.succ.inj same
    have ends : (host.nowNs : ℤ) < began + config.timeoutNs := deadline ▸ window
    have starts : began + (delaysNs count).sum ≤ (host.nowNs : ℤ) := passed
    linarith
  · unfold attempts at asked ⊢
    rw [List.countP_cons, List.countP_cons, asked]
    rfl
  · rw [delayNs_succ, ← next]
  · rw [delaysNs_succ, List.sum_append, List.sum_singleton, next]
    have starts : began + (delaysNs count).sum ≤ (host.nowNs : ℤ) := passed
    show began + ((delaysNs count).sum + delayNs count) ≤ (host.nowNs : ℤ) + delayNs count
    linarith

/-- A quiet act and a phase that asks no more of the acts than the last one did. -/
theorem PacedAt.notes {acts : List Act} {act : Act} {now : ℤ} {phase next : Phase}
    (paced : PacedAt config acts now phase) (quiet : act.unpaced = true)
    (same : PacedAt config (act :: acts) now phase → PacedAt config (act :: acts) now next) :
    PacedAt config (act :: acts) now next :=
  same (paced.append fun other (member : other ∈ [act]) => List.mem_singleton.mp member ▸ quiet)

/-- **Every step of a life keeps the pace.** -/
theorem Turn.paced (turn : Turn config host after) (paced : Paced config host) :
    Paced config after := by
  have here : PacedAt config host.acts host.nowNs host.phase := paced
  cases turn with
  | idles later still unsent => exact here.later later
  | jobEnds runs => exact here
  | plays taken part =>
      refine here.append fun act member => ?_
      obtain ⟨request, _, rfl⟩ := List.mem_map.mp (List.mem_reverse.mp member)
      rfl
  | asks at_ exits =>
      rw [at_] at here
      exact here.notes rfl id
  | recovers at_ =>
      have none_ : PacedAt config host.acts host.nowNs .locking := by
        rcases at_ with at_ | at_ <;> rw [at_] at here <;> exact here
      exact none_.notes rfl id
  | recovered at_ unsent =>
      rw [at_] at here
      exact here.notes rfl id
  | busStarted at_ =>
      rw [at_] at here
      exact here.notes rfl id
  | exchangeStarted at_ =>
      rw [at_] at here
      refine ⟨0, ⟨here.1, fun _ none_ => by cases none_⟩, here.2, rfl, host.nowNs, rfl, ?_⟩
      exact (add_zero (host.nowNs : ℤ)).le
  | wakes at_ due =>
      rw [at_] at here
      obtain ⟨count, waited, asked, next, began, window, passed⟩ := here
      exact ⟨count, waited, asked, next, began, window, passed.trans due⟩
  | account at_ unsent =>
      rw [at_] at here
      exact here.notes rfl id
  | clears at_ exits =>
      rw [at_] at here
      exact here.notes rfl PacedAt.whole
  | hosts at_ trades =>
      rw [at_] at here
      have proved : PacedAt config (.proved .sagas :: host.acts) host.nowNs .hosting :=
        here.notes rfl PacedAt.whole
      exact proved.notes rfl id
  | waits at_ window =>
      rw [at_] at here
      exact here.waits window
  | @gaveUp pace proof at_ spent =>
      rw [at_] at here
      obtain ⟨count, ⟨waited, fits⟩, asked, _⟩ := here
      have froze : Runner.waits (.froze proof :: host.acts) = Runner.waits host.acts :=
        (waits_append [.froze proof] host.acts).trans (List.append_nil _)
      refine Paced.shuts ⟨count, ⟨froze.trans waited, fits⟩, ?_⟩ (shuts_faults false)
      unfold attempts at asked ⊢
      rw [List.countP_cons, asked]
      exact le_rfl
  | hosted at_ =>
      rw [at_] at here
      exact here.notes rfl id
  | fed at_ =>
      rw [at_] at here
      exact here
  | job at_ exits =>
      rw [at_] at here
      exact here.notes rfl id
  | closes at_ failed => exact Paced.shuts here.whole (shuts_closes _)
  | faults at_ => exact Paced.shuts here.whole (shuts_faults _)
  | stops at_ => exact Paced.shuts here.whole (shuts_stops _)
  | stopsNext at_ => exact Paced.shuts here.whole (shuts_stops _)
  | salvagesNext at_ => exact Paced.shuts here.whole (shuts_salvages _ _)
  | closed at_ => exact Paced.shuts here.whole (shuts_ends _)

variable {life : Life} {startNs : Nanos} {moves : List Move} {last : Runner}

/-- **The barrier keeps its pace.**  However often the venue freezes and however late each
wait ends, a life's waits are the first so many of the row, all but the last fit in the
window, and no more than seven attempts, and one for each thirty seconds of the window,
ever freeze. -/
theorem barrier_paced (positive : 0 < config.timeoutNs) (alive : ∀ move ∈ moves, move ≠ .dies)
    (ran : (runner config).run (boot life startNs []) moves = some last) :
    (∃ count, waits last.acts = delaysNs count ∧
      (waits last.acts).dropLast.sum < config.timeoutNs) ∧
    (attempts last.acts : ℤ) ≤ 7 + config.timeoutNs / maxBackoffNs := by
  have begun : Paced config (boot life startNs []) := ⟨rfl, rfl⟩
  have paced := life_induct (fun turn kept => turn.paced kept) alive begun ran
  obtain ⟨count, waited, asked⟩ := PacedAt.whole paced
  cases count with
  | zero =>
      have none_ : waits last.acts = [] := waited.waits
      refine ⟨⟨0, none_, by rw [none_]; exact positive⟩, ?_⟩
      have quotient : (0 : ℤ) ≤ config.timeoutNs / maxBackoffNs :=
        Int.ediv_nonneg positive.le (by decide)
      omega
  | succ earlier =>
      have fits := waited.fits earlier rfl
      refine ⟨⟨earlier + 1, waited.waits, ?_⟩, ?_⟩
      · rw [waited.waits, delaysNs_succ, List.dropLast_concat]
        exact fits
      · have sum := delaysNs_sum earlier
        have room : ((earlier : ℤ) - 5) ≤ config.timeoutNs / maxBackoffNs := by
          refine Int.le_ediv_of_mul_le (by decide) ?_
          show ((earlier : ℤ) - 5) * 30000000000 ≤ (config.timeoutNs : ℤ)
          linarith
        have counted : (attempts last.acts : ℤ) ≤ earlier + 2 := by omega
        linarith

namespace Sample

open Tickwright.Engine.Sample

/-- One attempt froze, and one wait is behind it. -/
theorem slowBoot_paced :
    ∃ last, (runner traded).run (boot { process := unstarted } 0 []) slowBoot = some last ∧
      waits last.acts = [1000000000] ∧ (attempts last.acts : ℤ) ≤ 9 := by
  have lived : ((runner traded).run (boot { process := unstarted } 0 []) slowBoot).map
      (fun last => waits last.acts) = some [1000000000] := by
    decide +kernel
  obtain ⟨last, ran, one⟩ := Option.map_eq_some_iff.mp lived
  have alive : ∀ move ∈ slowBoot, move ≠ .dies := by simp [slowBoot]
  exact ⟨last, ran, one, (barrier_paced (by decide) alive ran).2⟩

end Sample

end Runner

end Tickwright.Engine
