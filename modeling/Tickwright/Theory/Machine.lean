/-
# Theory.Machine -- runs of a labelled machine, and crashes inside a script

A `Machine` is a partial step function over labels.  `run` folds a list of
labels through it and is defined exactly while every step is enabled.

* `run_induct` carries a predicate from a start state along any run;
* `Meets ok` says every step of a run was taken in a state and under a label
  that satisfy `ok`, and `run_induct_of` is the rule for predicates that only
  those steps preserve;
* `not_endless` turns a measure that every step lowers into the end of every run;
* `checks` evaluates a decidable condition along a run, and `meets_of_checks`
  reads it back;
* `run_append` and `Meets.append` split a run in two, so a fact about "every
  later state" is a fact about the second half;
* `run_history` is `run_induct` for a predicate that speaks of the labels taken
  as well, and `run_simulates` carries a run over to another machine.

A handler is a `List` of effects.  A crash stops it after any number of them, so
what a crash can leave is `exec` of a `take`.  `exec_take_induct` carries a
predicate to every such point.  `Along ok` says each effect of a script is `ok` in
the state it is performed in, and `Along.keeps_take` carries what `ok` effects
preserve.
-/
import Mathlib.Data.List.Induction
import Mathlib.Order.RelClasses

namespace Tickwright.Theory

set_option autoImplicit false

universe u v w

/-- A partial, labelled step function. -/
structure Machine (σ : Type u) (ε : Type v) where
  step : σ → ε → Option σ

namespace Machine

variable {σ : Type u} {ε : Type v} (m : Machine σ ε)

/-- Take the labels in order; `none` as soon as one is not enabled. -/
def run (s : σ) : List ε → Option σ
  | [] => some s
  | e :: rest =>
      match m.step s e with
      | none => none
      | some s' => run s' rest

variable {m}

@[simp] theorem run_nil (s : σ) : m.run s [] = some s := rfl

theorem run_cons_eq_some {s s' : σ} {e : ε} {rest : List ε} :
    m.run s (e :: rest) = some s' ↔ ∃ t, m.step s e = some t ∧ m.run t rest = some s' := by
  simp only [run]
  cases m.step s e with
  | none => simp
  | some t => simp

theorem run_append {s s' : σ} (first second : List ε) :
    m.run s (first ++ second) = some s' ↔
      ∃ t, m.run s first = some t ∧ m.run t second = some s' := by
  induction first generalizing s with
  | nil => simp
  | cons e rest ih =>
      rw [List.cons_append, run_cons_eq_some]
      simp only [run_cons_eq_some, ih]
      constructor
      · rintro ⟨t, enabled, u, left, right⟩; exact ⟨u, ⟨t, enabled, left⟩, right⟩
      · rintro ⟨u, ⟨t, enabled, left⟩, right⟩; exact ⟨t, enabled, u, left, right⟩

/-- **What each step preserves, each run preserves.** -/
theorem run_induct (I : σ → Prop) (keep : ∀ {s e s'}, I s → m.step s e = some s' → I s')
    {s s' : σ} {es : List ε} (start : I s) (ran : m.run s es = some s') : I s' := by
  induction es generalizing s with
  | nil => cases ran; exact start
  | cons e rest ih =>
      obtain ⟨t, enabled, tail⟩ := run_cons_eq_some.mp ran
      exact ih (keep start enabled) tail

/-- The rule for what ties a state to the labels that led to it. -/
theorem run_history (I : List ε → σ → Prop) {s s' : σ} {es : List ε}
    (keep : ∀ {done t e u}, m.run s done = some t → I done t → m.step t e = some u →
      I (done ++ [e]) u) (start : I [] s) (ran : m.run s es = some s') : I es s' := by
  induction es using List.reverseRecOn generalizing s' with
  | nil => cases ran; exact start
  | append_singleton done e ih =>
      obtain ⟨t, first, last⟩ := (run_append done [e]).mp ran
      obtain ⟨u, stepped, ended⟩ := run_cons_eq_some.mp last
      cases ended
      exact keep first (ih first) stepped

/-- **A machine each of whose steps another takes in some steps of its own is run by it.** -/
theorem run_simulates {τ : Type*} {δ : Type*} {other : Machine τ δ} (view : σ → τ)
    (under : ε → List δ) (steps : ∀ {s e s'}, m.step s e = some s' →
      other.run (view s) (under e) = some (view s')) {s s' : σ} {es : List ε}
    (ran : m.run s es = some s') : other.run (view s) (es.flatMap under) = some (view s') := by
  induction es generalizing s with
  | nil => cases ran; rfl
  | cons e rest ih =>
      obtain ⟨t, enabled, tail⟩ := run_cons_eq_some.mp ran
      rw [List.flatMap_cons]
      exact (run_append _ _).mpr ⟨view t, steps enabled, ih tail⟩

/-- Every step of the run from `s` is taken where `ok` holds. -/
def Meets (m : Machine σ ε) (ok : σ → ε → Prop) (s : σ) : List ε → Prop
  | [] => True
  | e :: rest => ok s e ∧ ∀ t, m.step s e = some t → Meets m ok t rest

/-- What each step that meets a condition preserves, each run whose steps all
meet it preserves. -/
theorem run_induct_of (ok : σ → ε → Prop) (I : σ → Prop)
    (keep : ∀ {s e s'}, I s → ok s e → m.step s e = some s' → I s')
    {s s' : σ} {es : List ε} (start : I s) (meets : m.Meets ok s es)
    (ran : m.run s es = some s') : I s' := by
  induction es generalizing s with
  | nil => cases ran; exact start
  | cons e rest ih =>
      obtain ⟨t, enabled, tail⟩ := run_cons_eq_some.mp ran
      exact ih (keep start meets.1 enabled) (meets.2 t enabled) tail

/-- A run that meets a condition met it at every step of its first part. -/
theorem Meets.append {ok : σ → ε → Prop} {s : σ} {first second : List ε}
    (meets : m.Meets ok s (first ++ second)) : m.Meets ok s first := by
  induction first generalizing s with
  | nil => trivial
  | cons e rest ih => exact ⟨meets.1, fun t enabled => ih (meets.2 t enabled)⟩

/-- And at every step of what comes after it. -/
theorem Meets.after {ok : σ → ε → Prop} {s t : σ} {first second : List ε}
    (meets : m.Meets ok s (first ++ second)) (ran : m.run s first = some t) :
    m.Meets ok t second := by
  induction first generalizing s with
  | nil =>
      cases ran
      exact meets
  | cons e rest ih =>
      obtain ⟨u, enabled, tail⟩ := run_cons_eq_some.mp ran
      exact ih (meets.2 u enabled) tail

theorem Meets.mono {ok weaker : σ → ε → Prop} {s : σ} {es : List ε} (meets : m.Meets ok s es)
    (weaken : ∀ s e, ok s e → weaker s e) : m.Meets weaker s es := by
  induction es generalizing s with
  | nil => trivial
  | cons e rest ih => exact ⟨weaken s e meets.1, fun t enabled => ih (meets.2 t enabled)⟩

/-- **A machine whose every step lowers a measure has no endless run.** -/
theorem not_endless {μ : Type w} [LT μ] [WellFoundedLT μ] (I : μ → σ → Prop)
    (lowers : ∀ {n s e s'}, I n s → m.step s e = some s' → ∃ n' < n, I n' s') {n : μ}
    (states : ℕ → σ) (labels : ℕ → ε) (start : I n (states 0))
    (goes : ∀ k, m.step (states k) (labels k) = some (states (k + 1))) : False := by
  induction n using WellFoundedLT.induction generalizing states labels with
  | ind n ih =>
      obtain ⟨n', less, next⟩ := lowers start (goes 0)
      exact ih n' less (fun k => states (k + 1)) (fun k => labels (k + 1)) next fun k => goes (k + 1)

/-- Evaluate a condition along a run. -/
def checks (m : Machine σ ε) (ok : σ → ε → Bool) (s : σ) : List ε → Bool
  | [] => true
  | e :: rest => ok s e && match m.step s e with
      | none => true
      | some t => checks m ok t rest

/-- A condition evaluated along a run, where it need only be sound for the labels in it. -/
theorem meets_of_checks_mem {ok : σ → ε → Bool} {meant : σ → ε → Prop} {s : σ} {es : List ε}
    (sound : ∀ s, ∀ e ∈ es, ok s e = true → meant s e) (checked : m.checks ok s es = true) :
    m.Meets meant s es := by
  induction es generalizing s with
  | nil => trivial
  | cons e rest ih =>
      simp only [checks, Bool.and_eq_true] at checked
      refine ⟨sound s e List.mem_cons_self checked.1, fun t enabled => ?_⟩
      have tail := checked.2
      rw [enabled] at tail
      exact ih (fun s e member => sound s e (List.mem_cons_of_mem _ member)) tail

theorem meets_of_checks {ok : σ → ε → Bool} {meant : σ → ε → Prop}
    (sound : ∀ s e, ok s e = true → meant s e) {s : σ} {es : List ε}
    (checked : m.checks ok s es = true) : m.Meets meant s es :=
  meets_of_checks_mem (fun s e _ => sound s e) checked

end Machine

/-! ## Scripts of effects -/

section Script

variable {σ : Type u} {ε : Type v}

/-- Perform the effects in order. -/
def exec (perform : σ → ε → σ) (s : σ) (script : List ε) : σ := script.foldl perform s

@[simp] theorem exec_nil (perform : σ → ε → σ) (s : σ) : exec perform s [] = s := rfl

@[simp] theorem exec_cons (perform : σ → ε → σ) (s : σ) (e : ε) (rest : List ε) :
    exec perform s (e :: rest) = exec perform (perform s e) rest := rfl

theorem exec_append (perform : σ → ε → σ) (s : σ) (first second : List ε) :
    exec perform s (first ++ second) = exec perform (exec perform s first) second :=
  List.foldl_append

/-- A predicate every effect of the script preserves holds after every prefix. -/
theorem exec_take_induct {perform : σ → ε → σ} (I : σ → Prop) {s : σ} {script : List ε}
    (keep : ∀ t, ∀ e ∈ script, I t → I (perform t e)) (start : I s) (k : ℕ) :
    I (exec perform s (script.take k)) := by
  induction script generalizing s k with
  | nil => simpa using start
  | cons e rest ih =>
      cases k with
      | zero => exact start
      | succ k =>
          exact ih (fun t e' member => keep t e' (List.mem_cons_of_mem _ member))
            (keep s e List.mem_cons_self start) k

/-- Every effect of the script is `ok` in the state it is performed in. -/
def Along (perform : σ → ε → σ) (ok : σ → ε → Prop) (s : σ) : List ε → Prop
  | [] => True
  | e :: rest => ok s e ∧ Along perform ok (perform s e) rest

theorem along_append {perform : σ → ε → σ} {ok : σ → ε → Prop} {s : σ} {first second : List ε} :
    Along perform ok s (first ++ second) ↔
      Along perform ok s first ∧ Along perform ok (exec perform s first) second := by
  induction first generalizing s with
  | nil => simp [Along]
  | cons e rest ih => simp only [List.cons_append, Along, ih, exec_cons, and_assoc]

theorem Along.mono {perform : σ → ε → σ} {ok weaker : σ → ε → Prop} {s : σ} {script : List ε}
    (along : Along perform ok s script) (weaken : ∀ {t e}, ok t e → weaker t e) :
    Along perform weaker s script := by
  induction script generalizing s with
  | nil => trivial
  | cons e rest ih => exact ⟨weaken along.1, ih along.2⟩

/-- A predicate every `ok` effect preserves holds after every prefix of a script
that is `ok` along its way. -/
theorem Along.keeps_take {perform : σ → ε → σ} {ok : σ → ε → Prop} {s : σ} {script : List ε}
    (along : Along perform ok s script) (I : σ → Prop)
    (keep : ∀ {t e}, ok t e → I t → I (perform t e)) (start : I s) (k : ℕ) :
    I (exec perform s (script.take k)) := by
  induction script generalizing s k with
  | nil => simpa using start
  | cons e rest ih =>
      cases k with
      | zero => exact start
      | succ k => exact ih along.2 (keep along.1 start) k

/-- The same after the whole script. -/
theorem Along.keeps {perform : σ → ε → σ} {ok : σ → ε → Prop} {s : σ} {script : List ε}
    (along : Along perform ok s script) (I : σ → Prop)
    (keep : ∀ {t e}, ok t e → I t → I (perform t e)) (start : I s) :
    I (exec perform s script) := by
  have whole := along.keeps_take I keep start script.length
  rwa [List.take_length] at whole

end Script

end Tickwright.Theory
