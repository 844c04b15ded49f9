/-
# Theory.Fifo -- what a queue of pending inputs will make of a state

Inputs are put on a queue by anyone and handled one at a time in the order they
were put there.  What decides whether an input is safe to put is the state it
will be handled in, which is not the present one: everything queued before it
comes first.

`Ahead stops along landed s queue` says so in one definition.  Handle the queue
from `s`, whenever each input's turn comes: `along` holds of every state on the
way, `landed` of the last one, and where an input's handler raises, `stops` is
all that is promised (`False` when no queued input may raise, `True` when the
machine simply halts there).

* `Ahead.put` adds one input at the back, judged in the state it will meet;
* `Ahead.took` handles the front one, so a step of the consumer needs no
  argument of its own;
* `Ahead.carry` and `Ahead.reflects` read facts out of the queue: what no queued
  input undoes, and what a queued input brings about.
-/
import Mathlib.Data.List.Basic

namespace Tickwright.Theory

set_option autoImplicit false

universe u v w x

/-- Two outcomes that agree: both raise, or both succeed in like states. -/
def SameOutcome {σ : Type u} {ε : Type x} (like : σ → σ → Prop) : Except ε σ → Except ε σ → Prop
  | .ok next, .ok next' => like next next'
  | .error _, .error _ => True
  | .ok _, .error _ | .error _, .ok _ => False

section Fifo

variable {σ : Type u} {ι : Type v} {τ : Type w} {ε : Type x}
variable (handle : σ → ι → τ → Except ε σ)

/-- What handling `queue` from `s` passes through and lands in. -/
def Ahead (stops : Prop) (along landed : σ → Prop) : σ → List ι → Prop
  | s, [] => along s ∧ landed s
  | s, i :: rest => along s ∧ ∀ now, match handle s i now with
      | .error _ => stops
      | .ok next => Ahead stops along landed next rest

namespace Ahead

variable {handle}
variable {stops : Prop} {along along' landed landed' : σ → Prop} {s next : σ} {queue rest : List ι}
  {i : ι}

theorem here (ahead : Ahead handle stops along landed s queue) : along s := by
  cases queue with
  | nil => exact ahead.1
  | cons i rest => exact ahead.1

theorem mono (ahead : Ahead handle stops along landed s queue)
    (on : ∀ s, along s → along' s) (atEnd : ∀ s, along s → landed s → landed' s) :
    Ahead handle stops along' landed' s queue := by
  induction queue generalizing s with
  | nil => exact ⟨on s ahead.1, atEnd s ahead.1 ahead.2⟩
  | cons i rest ih =>
      refine ⟨on s ahead.1, fun now => ?_⟩
      have onward := ahead.2 now
      cases handled : handle s i now with
      | error _ => simp only [handled] at onward ⊢; exact onward
      | ok next => simp only [handled] at onward ⊢; exact ih onward

/-- **Put one input at the back**, judged in the state it will be handled in. -/
theorem put (ahead : Ahead handle stops along landed s queue)
    (handled : ∀ s, along s → landed s → ∀ now, match handle s i now with
      | .error _ => stops
      | .ok next => along next ∧ landed' next) :
    Ahead handle stops along landed' s (queue ++ [i]) := by
  induction queue generalizing s with
  | nil =>
      refine ⟨ahead.1, fun now => ?_⟩
      have meets := handled s ahead.1 ahead.2 now
      cases turn : handle s i now with
      | error _ => simp only [turn] at meets ⊢; exact meets
      | ok next => simp only [turn] at meets ⊢; exact meets
  | cons j rest ih =>
      refine ⟨ahead.1, fun now => ?_⟩
      have onward := ahead.2 now
      cases turn : handle s j now with
      | error _ => simp only [turn] at onward ⊢; exact onward
      | ok next => simp only [turn] at onward ⊢; exact ih onward

/-- **Take the front input.** -/
theorem took (ahead : Ahead handle stops along landed s (i :: rest)) {now : τ}
    (handled : handle s i now = .ok next) : Ahead handle stops along landed next rest := by
  have onward := ahead.2 now
  rw [handled] at onward
  exact onward

/-- Where nothing queued may raise, the front input does not. -/
theorem safe (ahead : Ahead handle False along landed s (i :: rest)) (now : τ) (e : ε) :
    handle s i now ≠ .error e := by
  intro raised
  have onward := ahead.2 now
  rw [raised] at onward
  exact onward

/-- What holds now and no queued input undoes holds all the way. -/
theorem carry (ahead : Ahead handle stops along landed s queue) (kept : σ → Prop) (start : kept s)
    (keep : ∀ i ∈ queue, ∀ s now next, along s → kept s → handle s i now = .ok next → kept next) :
    Ahead handle stops (fun s => along s ∧ kept s) (fun s => landed s ∧ kept s) s queue := by
  induction queue generalizing s with
  | nil => exact ⟨⟨ahead.1, start⟩, ahead.2, start⟩
  | cons i rest ih =>
      refine ⟨⟨ahead.1, start⟩, fun now => ?_⟩
      have onward := ahead.2 now
      cases turn : handle s i now with
      | error _ => simp only [turn] at onward ⊢; exact onward
      | ok next =>
          simp only [turn] at onward ⊢
          exact ih onward (keep i List.mem_cons_self s now next ahead.1 start turn)
            fun j member => keep j (List.mem_cons_of_mem _ member)

/-- What a queued input brings about, and none undoes, holds at the end. -/
theorem reflects {shown : σ → Prop} (ahead : Ahead handle stops along landed s queue)
    (member : i ∈ queue)
    (brings : ∀ s now next, along s → handle s i now = .ok next → shown next)
    (keep : ∀ j s now next, shown s → handle s j now = .ok next → shown next) :
    Ahead handle stops along (fun s => landed s ∧ shown s) s queue := by
  induction queue generalizing s with
  | nil => cases member
  | cons j rest ih =>
      refine ⟨ahead.1, fun now => ?_⟩
      have onward := ahead.2 now
      cases turn : handle s j now with
      | error _ => simp only [turn] at onward ⊢; exact onward
      | ok next =>
          simp only [turn] at onward ⊢
          rcases List.mem_cons.mp member with rfl | later
          · have carried := onward.carry shown (brings s now next ahead.1 turn)
              fun j _ s now next _ shown handled => keep j s now next shown handled
            exact carried.mono (fun _ h => h.1) fun _ _ h => h
          · exact ih onward later

/-- Two things the queue lands in, it lands in together. -/
theorem and (first : Ahead handle stops along landed s queue)
    (second : Ahead handle stops along landed' s queue) :
    Ahead handle stops along (fun s => landed s ∧ landed' s) s queue := by
  induction queue generalizing s with
  | nil => exact ⟨first.1, first.2, second.2⟩
  | cons i rest ih =>
      refine ⟨first.1, fun now => ?_⟩
      have left := first.2 now
      have right := second.2 now
      cases turn : handle s i now with
      | error _ => simp only [turn] at left ⊢; exact left
      | ok next => simp only [turn] at left right ⊢; exact ih left right

theorem all {κ : Type*} {each : κ → σ → Prop} (ahead : Ahead handle stops along landed s queue)
    (ks : List κ) (lands : ∀ k ∈ ks, Ahead handle stops along (each k) s queue) :
    Ahead handle stops along (fun s => landed s ∧ ∀ k ∈ ks, each k s) s queue := by
  induction ks with
  | nil => exact ahead.mono (fun _ h => h) fun _ _ h => ⟨h, fun k member => by cases member⟩
  | cons k rest ih =>
      have others := ih fun j member => lands j (List.mem_cons_of_mem _ member)
      have this := lands k List.mem_cons_self
      refine (others.and this).mono (fun _ h => h) ?_
      rintro s _ ⟨⟨landed, later⟩, head⟩
      refine ⟨landed, fun j member => ?_⟩
      rcases List.mem_cons.mp member with rfl | there
      · exact head
      · exact later j there

/-- A state that is handled alike meets the same. -/
theorem alike {like : σ → σ → Prop} {s' : σ} (ahead : Ahead handle stops along landed s queue)
    (start : like s s')
    (handled : ∀ s s' i now, like s s' → SameOutcome like (handle s i now) (handle s' i now))
    (on : ∀ s s', like s s' → along s → along' s')
    (atEnd : ∀ s s', like s s' → landed s → landed' s') :
    Ahead handle stops along' landed' s' queue := by
  induction queue generalizing s s' with
  | nil => exact ⟨on s s' start ahead.1, atEnd s s' start ahead.2⟩
  | cons i rest ih =>
      refine ⟨on s s' start ahead.1, fun now => ?_⟩
      have onward := ahead.2 now
      have both := handled s s' i now start
      cases turn : handle s i now with
      | error _ =>
          cases turn' : handle s' i now with
          | error _ => simp only [turn] at onward; simp only; exact onward
          | ok _ => rw [turn, turn'] at both; exact both.elim
      | ok next =>
          cases turn' : handle s' i now with
          | error _ => rw [turn, turn'] at both; exact both.elim
          | ok next' =>
              simp only [turn] at onward
              rw [turn, turn'] at both
              simp only
              exact ih onward both

end Ahead

end Fifo

end Tickwright.Theory
