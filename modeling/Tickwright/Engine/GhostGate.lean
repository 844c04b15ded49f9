/-
# Engine.GhostGate -- a ghost verdict needs continuous absence

One gate serves every cloid and every cycle that reads the venue.  It keeps the
first absence of each cloid's present run of absences (`Clocks`), and a run ends
on a present reading, on a protected one and on the verdict itself.

The history says the same without any clock: a cloid `Runs` from `t0` when one of
its readings at `t0` counted and every later reading of it did too.

* `runs_append`: what one more reading makes of every run;
* `ClockKept.observe`: the clock is the start of the oldest run;
* `ghost_iff_runs`: a verdict is drawn exactly where some run has lasted the
  grace span.
-/
import Tickwright.Engine.Reconcile
import Tickwright.Theory.Dict
import Mathlib.Tactic.Linarith

namespace Tickwright.Engine

open Tickwright.Domain Tickwright.Theory

set_option autoImplicit false

/-! ## The gate -/

/-- What a cycle saw of one cloid. -/
inductive GateReading
  | absent (cloid : Cloid) (nowNs : Nanos) (lastEventNs : Option Nanos)
  | present (cloid : Cloid)
deriving DecidableEq

namespace GateReading

def cloid : GateReading → Cloid
  | absent cloid _ _ | present cloid => cloid

/-- When an absence was evaluated.  A present reading carries no time. -/
def atNs : GateReading → Option Nanos
  | absent _ nowNs _ => some nowNs
  | present _ => none

end GateReading

/-- The first absence of each cloid's present run. -/
abbrev Clocks := Dict Cloid Nanos

namespace Clocks

/-- `record_present`. -/
def recordPresent (clocks : Clocks) (cloid : Cloid) : Clocks := clocks.erase cloid

/-- `evaluate`: the per-cloid rule, its clock written back. -/
def evaluate (config : ReconcileConfig) (clocks : Clocks) (cloid : Cloid) (nowNs : Nanos)
    (lastEventNs : Option Nanos) : GhostVerdict × Clocks :=
  match GhostGate.evaluate config (clocks.get cloid) nowNs lastEventNs with
  | (verdict, none) => (verdict, clocks.erase cloid)
  | (verdict, some sinceNs) => (verdict, clocks.set cloid sinceNs)

end Clocks

/-- A reading beside the verdict it drew, if it was an absence. -/
structure GateEntry where
  reading : GateReading
  verdict : Option GhostVerdict
deriving DecidableEq

/-- The gate beside everything it was given. -/
structure Observed where
  clocks : Clocks := Dict.empty
  log : List GateEntry := []

namespace Observed

def observe (config : ReconcileConfig) (seen : Observed) (reading : GateReading) : Observed :=
  match reading with
  | .present cloid =>
      { clocks := seen.clocks.recordPresent cloid, log := seen.log ++ [⟨reading, none⟩] }
  | .absent cloid nowNs lastEventNs =>
      let ruled := seen.clocks.evaluate config cloid nowNs lastEventNs
      { clocks := ruled.2, log := seen.log ++ [⟨reading, some ruled.1⟩] }

/-- A new gate given the readings in order. -/
def observeAll (config : ReconcileConfig) (readings : List GateReading) : Observed :=
  readings.foldl (observe config) {}

end Observed

/-! ## Runs of absence -/

variable {config : ReconcileConfig}

/-- The order's last event is not fresher than the protection window. -/
def Unprotected (config : ReconcileConfig) (nowNs : Nanos) (lastEventNs : Option Nanos) : Prop :=
  ∀ last, lastEventNs = some last → config.recentOrderProtectionNs ≤ nowNs - last

/-- An absent, unprotected reading that drew no ghost verdict. -/
def GateEntry.Counts (config : ReconcileConfig) (entry : GateEntry) : Prop :=
  ∃ cloid nowNs lastEventNs, entry.reading = .absent cloid nowNs lastEventNs ∧
    Unprotected config nowNs lastEventNs ∧ entry.verdict ≠ some .ghost

/-- A reading of `cloid` at `t0` counted, and so did every later one of it. -/
def Runs (config : ReconcileConfig) (cloid : Cloid) (t0 : Nanos) (log : List GateEntry) : Prop :=
  ∃ before entry between lastEventNs, log = before ++ entry :: between ∧
    entry.reading = .absent cloid t0 lastEventNs ∧ entry.Counts config ∧
    ∀ later ∈ between, later.reading.cloid = cloid → later.Counts config

theorem runs_nil (cloid : Cloid) (t0 : Nanos) : ¬ Runs config cloid t0 [] := by
  rintro ⟨before, entry, between, _, split, _⟩
  simp at split

/-- **What one more reading makes of a run**: one of another cloid nothing, one
that counts carries the run on or starts it, and any other ends it. -/
theorem runs_append {cloid : Cloid} {t0 : Nanos} {log : List GateEntry} {entry : GateEntry} :
    Runs config cloid t0 (log ++ [entry]) ↔
      (Runs config cloid t0 log ∧ (entry.reading.cloid = cloid → entry.Counts config)) ∨
      (∃ lastEventNs, entry.reading = .absent cloid t0 lastEventNs ∧ entry.Counts config) := by
  constructor
  · rintro ⟨before, first, between, lastEventNs, split, at_, counts, later⟩
    rcases List.eq_nil_or_concat between with rfl | ⟨front, last, rfl⟩
    · right
      have tail := List.append_inj_right' split rfl
      simp only [List.cons.injEq, and_true] at tail
      subst tail
      exact ⟨lastEventNs, at_, counts⟩
    · left
      rw [List.concat_eq_append, ← List.cons_append, ← List.append_assoc] at split
      have last_ := List.append_inj_right' split rfl
      have front_ := List.append_inj_left' split rfl
      simp only [List.cons.injEq, and_true] at last_
      subst last_
      rw [List.concat_eq_append] at later
      refine ⟨⟨before, first, front, lastEventNs, front_, at_, counts, fun other member => ?_⟩, ?_⟩
      · exact later other (List.mem_append_left _ member)
      · exact later entry (List.mem_append_right _ List.mem_cons_self)
  · rintro (⟨⟨before, first, between, lastEventNs, split, at_, counts, later⟩, onward⟩ |
      ⟨lastEventNs, at_, counts⟩)
    · refine ⟨before, first, between ++ [entry], lastEventNs, ?_, at_, counts, ?_⟩
      · rw [split, List.append_assoc, List.cons_append]
      · intro other member
        rcases List.mem_append.mp member with earlier | last
        · exact later other earlier
        · rw [List.mem_singleton.mp last]
          exact onward
    · exact ⟨log, entry, [], lastEventNs, rfl, at_, counts, fun _ member => by cases member⟩

/-- A run starts no later than anything the history is not later than. -/
theorem Runs.atMost {cloid : Cloid} {t0 nowNs : Nanos} {log : List GateEntry}
    (runs : Runs config cloid t0 log)
    (latest : ∀ entry ∈ log, ∀ t, entry.reading.atNs = some t → t ≤ nowNs) : t0 ≤ nowNs := by
  obtain ⟨before, entry, between, _, split, is, _⟩ := runs
  refine latest entry ?_ t0 ?_
  · rw [split]
    exact List.mem_append_right _ List.mem_cons_self
  · rw [is]
    rfl

/-! ## The clock is the oldest run -/

/-- What the clock of one cloid says of the history. -/
structure ClockKept (config : ReconcileConfig) (seen : Observed) : Prop where
  armed : ∀ cloid t0, seen.clocks.get cloid = some t0 →
    Runs config cloid t0 seen.log ∧ ∀ t, Runs config cloid t seen.log → t0 ≤ t
  idle : ∀ cloid, seen.clocks.get cloid = none → ∀ t, ¬ Runs config cloid t seen.log

/-- The per-cloid rule, with its clock. -/
theorem evaluate_cases (firstAbsentNs : Option Nanos) (nowNs : Nanos)
    (lastEventNs : Option Nanos) :
    (¬ Unprotected config nowNs lastEventNs ∧
      GhostGate.evaluate config firstAbsentNs nowNs lastEventNs = (.isProtected, none)) ∨
    (Unprotected config nowNs lastEventNs ∧
      config.ghostGraceNs ≤ nowNs - firstAbsentNs.getD nowNs ∧
      GhostGate.evaluate config firstAbsentNs nowNs lastEventNs = (.ghost, none)) ∨
    (Unprotected config nowNs lastEventNs ∧
      nowNs - firstAbsentNs.getD nowNs < config.ghostGraceNs ∧
      GhostGate.evaluate config firstAbsentNs nowNs lastEventNs =
        (.waiting, some (firstAbsentNs.getD nowNs))) := by
  have shields : (lastEventNs.any fun last =>
      decide (nowNs - last < config.recentOrderProtectionNs)) = true ↔
      ¬ Unprotected config nowNs lastEventNs := by
    cases lastEventNs with
    | none => simp [Unprotected]
    | some last => simp [Unprotected]
  simp only [GhostGate.evaluate, GraceWindow.recordAbsent]
  by_cases shielded : Unprotected config nowNs lastEventNs
  · rw [if_neg fun fresh => shields.mp fresh shielded]
    by_cases lasted : config.ghostGraceNs ≤ nowNs - firstAbsentNs.getD nowNs
    · rw [if_pos lasted]
      exact Or.inr (Or.inl ⟨shielded, lasted, rfl⟩)
    · rw [if_neg lasted]
      exact Or.inr (Or.inr ⟨shielded, not_le.mp lasted, rfl⟩)
  · rw [if_pos (shields.mpr shielded)]
    exact Or.inl ⟨shielded, rfl⟩

theorem get_evaluate (clocks : Clocks) (cloid other : Cloid) (nowNs : Nanos)
    (lastEventNs : Option Nanos) :
    (clocks.evaluate config cloid nowNs lastEventNs).2.get other =
      if cloid = other then (GhostGate.evaluate config (clocks.get cloid) nowNs lastEventNs).2
      else clocks.get other := by
  simp only [Clocks.evaluate]
  cases ruled : GhostGate.evaluate config (clocks.get cloid) nowNs lastEventNs with
  | mk verdict since =>
      cases since with
      | none => exact Dict.get_erase ..
      | some sinceNs => exact Dict.get_set ..

theorem evaluate_verdict (clocks : Clocks) (cloid : Cloid) (nowNs : Nanos)
    (lastEventNs : Option Nanos) :
    (clocks.evaluate config cloid nowNs lastEventNs).1 =
      (GhostGate.evaluate config (clocks.get cloid) nowNs lastEventNs).1 := by
  simp only [Clocks.evaluate]
  split <;> simp_all

/-- **One more reading keeps the clock the start of the oldest run**, where no
absence is evaluated before one the gate has seen. -/
theorem ClockKept.observe {seen : Observed} {reading : GateReading} (kept : ClockKept config seen)
    (inTime : ∀ entry ∈ seen.log, ∀ t, entry.reading.atNs = some t →
      ∀ nowNs, reading.atNs = some nowNs → t ≤ nowNs) :
    ClockKept config (seen.observe config reading) := by
  have earlier : ∀ cloid t nowNs, Runs config cloid t seen.log → reading.atNs = some nowNs →
      t ≤ nowNs := fun cloid t nowNs runs now =>
    runs.atMost fun entry member t at_ => inTime entry member t at_ nowNs now
  cases reading with
  | present cloid =>
      have ends : ¬ (GateEntry.mk (.present cloid) none).Counts config := by
        rintro ⟨_, _, _, is, _⟩
        cases is
      constructor
      · intro other t0 held
        replace held : (seen.clocks.erase cloid).get other = some t0 := held
        rw [Dict.get_erase] at held
        split at held
        · cases held
        · rename_i ne
          obtain ⟨runs, least⟩ := kept.armed other t0 held
          refine ⟨runs_append.mpr (Or.inl ⟨runs, fun same => absurd same ne⟩), fun t later => ?_⟩
          rcases runs_append.mp later with ⟨was, _⟩ | ⟨_, is, _⟩
          · exact least t was
          · cases is
      · intro other held t later
        replace held : (seen.clocks.erase cloid).get other = none := held
        rw [Dict.get_erase] at held
        rcases runs_append.mp later with ⟨was, counts⟩ | ⟨_, is, _⟩
        · split at held
          · rename_i same
            exact ends (counts same)
          · exact kept.idle other held t was
        · cases is
  | absent cloid nowNs lastEventNs =>
      have others : ∀ other, cloid ≠ other → ∀ t,
          Runs config other t (seen.observe config (.absent cloid nowNs lastEventNs)).log ↔
            Runs config other t seen.log := by
        intro other ne t
        refine runs_append.trans ⟨?_, fun runs => Or.inl ⟨runs, fun same => absurd same ne⟩⟩
        rintro (⟨was, _⟩ | ⟨_, is, _⟩)
        · exact was
        · cases is
          exact absurd rfl ne
      have clock : ∀ other, (seen.observe config (.absent cloid nowNs lastEventNs)).clocks.get
          other = if cloid = other then
            (GhostGate.evaluate config (seen.clocks.get cloid) nowNs lastEventNs).2
          else seen.clocks.get other := fun other => get_evaluate ..
      have here : ∀ t, Runs config cloid t
          (seen.observe config (.absent cloid nowNs lastEventNs)).log ↔
          (Unprotected config nowNs lastEventNs ∧
            (GhostGate.evaluate config (seen.clocks.get cloid) nowNs lastEventNs).1 ≠ .ghost) ∧
          (Runs config cloid t seen.log ∨ t = nowNs) := by
        intro t
        have counts : (GateEntry.mk (.absent cloid nowNs lastEventNs)
            (some (seen.clocks.evaluate config cloid nowNs lastEventNs).1)).Counts config ↔
            Unprotected config nowNs lastEventNs ∧
              (GhostGate.evaluate config (seen.clocks.get cloid) nowNs lastEventNs).1 ≠ .ghost := by
          rw [evaluate_verdict]
          constructor
          · rintro ⟨_, _, _, is, free, drew⟩
            cases is
            exact ⟨free, fun ghost => drew (congrArg some ghost)⟩
          · rintro ⟨free, drew⟩
            exact ⟨_, _, _, rfl, free, fun ghost => drew (Option.some.inj ghost)⟩
        refine runs_append.trans ⟨?_, ?_⟩
        · rintro (⟨was, on⟩ | ⟨_, is, on⟩)
          · exact ⟨counts.mp (on rfl), Or.inl was⟩
          · cases is
            exact ⟨counts.mp on, Or.inr rfl⟩
        · rintro ⟨on, was | rfl⟩
          · exact Or.inl ⟨was, fun _ => counts.mpr on⟩
          · exact Or.inr ⟨_, rfl, counts.mpr on⟩
      constructor
      · intro other t0 held
        rw [clock] at held
        by_cases same : cloid = other
        · subst same
          rw [if_pos rfl] at held
          rcases evaluate_cases (seen.clocks.get cloid) nowNs lastEventNs with
            ⟨_, is⟩ | ⟨_, _, is⟩ | ⟨free, _, is⟩
          · rw [is] at held; cases held
          · rw [is] at held; cases held
          · rw [is] at held
            have goes : (GhostGate.evaluate config (seen.clocks.get cloid) nowNs
                lastEventNs).1 ≠ .ghost := by rw [is]; intro drew; cases drew
            simp only [Option.some.injEq] at held
            cases was : seen.clocks.get cloid with
            | none =>
                rw [was, Option.getD_none] at held
                subst held
                refine ⟨(here nowNs).mpr ⟨⟨free, goes⟩, Or.inr rfl⟩, fun t later => ?_⟩
                rcases ((here t).mp later).2 with runs | rfl
                · exact absurd runs (kept.idle cloid was t)
                · exact le_refl _
            | some first =>
                rw [was, Option.getD_some] at held
                subst held
                obtain ⟨runs, least⟩ := kept.armed cloid first was
                refine ⟨(here first).mpr ⟨⟨free, goes⟩, Or.inl runs⟩, fun t later => ?_⟩
                rcases ((here t).mp later).2 with was | rfl
                · exact least t was
                · exact earlier cloid first t runs rfl
        · rw [if_neg same] at held
          obtain ⟨runs, least⟩ := kept.armed other t0 held
          exact ⟨(others other same t0).mpr runs, fun t later => least t ((others other same t).mp later)⟩
      · intro other held t later
        rw [clock] at held
        by_cases same : cloid = other
        · subst same
          rw [if_pos rfl] at held
          obtain ⟨⟨free, goes⟩, _⟩ := (here t).mp later
          rcases evaluate_cases (seen.clocks.get cloid) nowNs lastEventNs with
            ⟨shielded, _⟩ | ⟨_, _, is⟩ | ⟨_, _, is⟩
          · exact shielded free
          · exact goes (by rw [is])
          · rw [is] at held; cases held
        · rw [if_neg same] at held
          exact kept.idle other held t ((others other same t).mp later)

/-! ## Verdicts -/

/-- No absence is evaluated before one of an earlier reading. -/
def InTime (readings : List GateReading) : Prop :=
  (readings.filterMap GateReading.atNs).Pairwise (· ≤ ·)

instance (readings : List GateReading) : Decidable (InTime readings) :=
  inferInstanceAs (Decidable (List.Pairwise _ _))

theorem observeAll_append (readings : List GateReading) (reading : GateReading) :
    Observed.observeAll config (readings ++ [reading]) =
      (Observed.observeAll config readings).observe config reading := by
  simp only [Observed.observeAll, List.foldl_append, List.foldl_cons, List.foldl_nil]

variable (config) in
theorem observeAll_log (readings : List GateReading) :
    (Observed.observeAll config readings).log.map GateEntry.reading = readings := by
  induction readings using List.reverseRecOn with
  | nil => rfl
  | append_singleton front reading ih =>
      rw [observeAll_append]
      cases reading with
      | present cloid => simp only [Observed.observe, List.map_append, ih]; rfl
      | absent cloid nowNs lastEventNs =>
          simp only [Observed.observe, List.map_append, ih]; rfl

theorem clockKept_observeAll {readings : List GateReading} (inTime : InTime readings) :
    ClockKept config (Observed.observeAll config readings) := by
  induction readings using List.reverseRecOn with
  | nil =>
      refine ⟨fun cloid t0 held => ?_, fun cloid _ t => runs_nil cloid t⟩
      cases held
  | append_singleton front reading ih =>
      simp only [InTime, List.filterMap_append, List.pairwise_append] at inTime
      obtain ⟨first, _, across⟩ := inTime
      rw [observeAll_append]
      refine (ih first).observe fun entry member t at_ nowNs now => ?_
      have listed : entry.reading ∈ front := by
        rw [← observeAll_log config front]
        exact List.mem_map_of_mem member
      refine across t (List.mem_filterMap.mpr ⟨_, listed, at_⟩) nowNs ?_
      simp [now]

/-- **A ghost verdict is drawn exactly where some run has lasted the grace span**, or
at once where the span is none. -/
theorem evaluate_ghost_iff {seen : Observed} (kept : ClockKept config seen) (cloid : Cloid)
    {nowNs : Nanos} (lastEventNs : Option Nanos)
    (latest : ∀ entry ∈ seen.log, ∀ t, entry.reading.atNs = some t → t ≤ nowNs) :
    (seen.clocks.evaluate config cloid nowNs lastEventNs).1 = .ghost ↔
      Unprotected config nowNs lastEventNs ∧ (config.ghostGraceNs ≤ 0 ∨
        ∃ t0, Runs config cloid t0 seen.log ∧ config.ghostGraceNs ≤ nowNs - t0) := by
  rw [evaluate_verdict]
  rcases evaluate_cases (seen.clocks.get cloid) nowNs lastEventNs with
    ⟨shielded, is⟩ | ⟨free, lasted, is⟩ | ⟨free, short, is⟩
  · rw [is]
    constructor
    · intro drew
      cases drew
    · intro held
      exact absurd held.1 shielded
  · rw [is]
    refine ⟨fun _ => ⟨free, ?_⟩, fun _ => rfl⟩
    cases was : seen.clocks.get cloid with
    | none =>
        rw [was, Option.getD_none, sub_self] at lasted
        exact Or.inl lasted
    | some first =>
        rw [was, Option.getD_some] at lasted
        exact Or.inr ⟨first, (kept.armed cloid first was).1, lasted⟩
  · rw [is]
    constructor
    · intro drew
      cases drew
    · rintro ⟨_, long⟩
      exfalso
      cases was : seen.clocks.get cloid with
      | none =>
          rw [was, Option.getD_none, sub_self] at short
          rcases long with none_ | ⟨t0, runs, _⟩
          · exact absurd short (not_lt.mpr none_)
          · exact kept.idle cloid was t0 runs
      | some first =>
          rw [was, Option.getD_some] at short
          obtain ⟨runs, least⟩ := kept.armed cloid first was
          have past := runs.atMost latest
          rcases long with none_ | ⟨t0, later, lasted⟩
          · linarith
          · linarith [least t0 later]

/-! ## Other cloids -/

theorem observe_get_ne {seen : Observed} {reading : GateReading} {cloid : Cloid}
    (other : reading.cloid ≠ cloid) :
    (seen.observe config reading).clocks.get cloid = seen.clocks.get cloid := by
  cases reading with
  | present c => exact Dict.get_erase_ne _ other
  | absent c nowNs lastEventNs =>
      show (seen.clocks.evaluate config c nowNs lastEventNs).2.get cloid = _
      rw [get_evaluate]
      exact if_neg other

theorem observe_get_congr {seen alone : Observed} {reading : GateReading} {cloid : Cloid}
    (here : reading.cloid = cloid) (same : seen.clocks.get cloid = alone.clocks.get cloid) :
    (seen.observe config reading).clocks.get cloid =
      (alone.observe config reading).clocks.get cloid := by
  subst here
  cases reading with
  | present c =>
      exact (Dict.get_erase_self seen.clocks c).trans (Dict.get_erase_self alone.clocks c).symm
  | absent c nowNs lastEventNs =>
      show (seen.clocks.evaluate config c nowNs lastEventNs).2.get c =
        (alone.clocks.evaluate config c nowNs lastEventNs).2.get c
      rw [get_evaluate, get_evaluate, if_pos rfl, if_pos rfl]
      exact congrArg (fun first => (GhostGate.evaluate config first nowNs lastEventNs).2) same

/-- A cloid's clock is what its own readings alone make of it. -/
theorem observeAll_alone (readings : List GateReading) (cloid : Cloid) :
    (Observed.observeAll config readings).clocks.get cloid =
      (Observed.observeAll config
        (readings.filter fun reading => reading.cloid = cloid)).clocks.get cloid := by
  induction readings using List.reverseRecOn with
  | nil => rfl
  | append_singleton front reading ih =>
      rw [observeAll_append, List.filter_append]
      by_cases here : reading.cloid = cloid
      · rw [List.filter_singleton, decide_eq_true here, cond_true, observeAll_append]
        exact observe_get_congr here ih
      · rw [List.filter_singleton, decide_eq_false here, cond_false, List.append_nil,
          observe_get_ne here]
        exact ih

/-- **A ghost verdict needs continuous absence.**  After any readings in time order,
an absence draws `GHOST` exactly where it is unprotected and the cloid has a run
of at least the grace span (or there is no span).  So a positive span never gives
a verdict on a first reading, and the readings of other cloids change nothing. -/
theorem ghost_iff_continuous (config : ReconcileConfig) (readings : List GateReading)
    (cloid : Cloid) (nowNs : Nanos) (lastEventNs : Option Nanos)
    (inTime : InTime (readings ++ [.absent cloid nowNs lastEventNs])) :
    (((Observed.observeAll config readings).clocks.evaluate config cloid nowNs
        lastEventNs).1 = .ghost ↔
      Unprotected config nowNs lastEventNs ∧ (config.ghostGraceNs ≤ 0 ∨
        ∃ t0, Runs config cloid t0 (Observed.observeAll config readings).log ∧
          config.ghostGraceNs ≤ nowNs - t0)) ∧
    (0 < config.ghostGraceNs → (∀ reading ∈ readings, reading.cloid ≠ cloid) →
      ((Observed.observeAll config readings).clocks.evaluate config cloid nowNs
        lastEventNs).1 ≠ .ghost) ∧
    ((Observed.observeAll config readings).clocks.evaluate config cloid nowNs lastEventNs).1 =
      ((Observed.observeAll config
        (readings.filter fun reading => reading.cloid = cloid)).clocks.evaluate config cloid nowNs
          lastEventNs).1 := by
  simp only [InTime, List.filterMap_append, List.pairwise_append] at inTime
  obtain ⟨first, _, across⟩ := inTime
  have kept : ClockKept config (Observed.observeAll config readings) := clockKept_observeAll first
  have latest : ∀ entry ∈ (Observed.observeAll config readings).log, ∀ t,
      entry.reading.atNs = some t → t ≤ nowNs := by
    intro entry member t at_
    have listed : entry.reading ∈ readings := by
      rw [← observeAll_log config readings]
      exact List.mem_map_of_mem member
    exact across t (List.mem_filterMap.mpr ⟨_, listed, at_⟩) nowNs List.mem_cons_self
  refine ⟨evaluate_ghost_iff kept cloid lastEventNs latest, fun positive none_ => ?_, ?_⟩
  · intro drew
    rcases ((evaluate_ghost_iff kept cloid lastEventNs latest).mp drew).2 with
      noSpan | ⟨t0, ⟨before, entry, between, _, split, is, _⟩, _⟩
    · exact absurd positive (not_lt.mpr noSpan)
    · have listed : entry.reading ∈ readings := by
        rw [← observeAll_log config readings, split]
        exact List.mem_map_of_mem (List.mem_append_right _ List.mem_cons_self)
      refine none_ _ listed ?_
      rw [is]
      rfl
  · rw [evaluate_verdict, evaluate_verdict, observeAll_alone]

namespace Sample

def ninety : ReconcileConfig where
  inflightMaxAttempts := 3
  ghostGraceNs := 90
  recentOrderProtectionNs := 30

/-- Absent at 0, absent again at 90. -/
def goneAtNinety : List GateReading := [.absent "0x01" 0 none, .absent "0x01" 90 none]

/-- The verdict at 90 ends the run: an absence 90 later only starts the next one,
though the reading at 90 was absent, unprotected and the last before it. -/
theorem fired_run_starts_over :
    (Observed.observeAll ninety goneAtNinety).log =
      [⟨.absent "0x01" 0 none, some .waiting⟩] ++ [⟨.absent "0x01" 90 none, some .ghost⟩] ∧
    Unprotected ninety 90 none ∧ Unprotected ninety 180 none ∧ ninety.ghostGraceNs ≤ 180 - 90 ∧
    ((Observed.observeAll ninety goneAtNinety).clocks.evaluate ninety "0x01" 180 none).1 =
      .waiting := by
  refine ⟨by decide, ?_, ?_, by decide, by decide⟩
  · intro last none_
    cases none_
  · intro last none_
    cases none_

/-- Ninety after the first absence the verdict is drawn. -/
theorem gone_ninety_ghost :
    ((Observed.observeAll ninety [.absent "0x01" 0 none]).clocks.evaluate ninety "0x01" 90
      none).1 = .ghost := by
  refine (ghost_iff_continuous ninety [.absent "0x01" 0 none] "0x01" 90 none
    (by decide)).1.mpr ⟨?_, Or.inr ⟨0, ?_, by decide⟩⟩
  · intro last none_
    cases none_
  · refine ⟨[], ⟨.absent "0x01" 0 none, some .waiting⟩, [], none, by decide, rfl, ?_, ?_⟩
    · refine ⟨_, _, _, rfl, ?_, ?_⟩
      · intro last none_
        cases none_
      · intro drew
        cases drew
    · intro later member
      cases member

end Sample

end Tickwright.Engine
