/-
# Bus.InMemory -- the fan-out both buses share, and the FIFO trampoline

`Subscriptions` is a list in registration order.  A dispatch awaits every handler
that wants the event, one after another, and ends at the first that raises.  What
the handlers remember between calls is one `World`, each handler's own state a
part of it, kept with the list of the calls made so far (`Heard`).

`InMemoryBus.publish` queues the event and, unless it was called from inside a
handler, dispatches the queue until it is empty.  What a handler publishes joins
the queue behind everything already there.  A handler that raises empties the
queue and its exception leaves through the `publish` that began the cascade.

`fuel` bounds the number of dispatches: a cascade that ends is one some fuel is
enough for.
-/
import Mathlib.Data.List.Basic

namespace Tickwright.Bus

set_option autoImplicit false

/-! ## Subscriptions -/

/-- What a handler can raise.  `asyncio.CancelledError` is the one exception the
poll loop does not treat like the others. -/
inductive Raised (Fault : Type) where
  | cancelled
  | fault (raised : Fault)
deriving DecidableEq

/-- What one call of a handler did: it left its state, it published, and it may
then have raised. -/
structure Handled (World Event Fault : Type) where
  world : World
  published : List Event := []
  raised : Option (Raised Fault) := none

/-- One entry of `Subscriptions`; `eventType` is the `isinstance` test. -/
structure Subscription (World Event Fault : Type) where
  eventType : Event → Bool
  handler : World → Event → Handled World Event Fault

/-- What the handlers know, and the calls made of them: which entry, on which event. -/
structure Heard (World Event : Type) where
  world : World
  calls : List (ℕ × Event) := []
deriving DecidableEq

variable {World Event Fault : Type}

/-- A handler and the place it was registered at. -/
abbrev Entry (World Event Fault : Type) : Type := Subscription World Event Fault × ℕ

/-- The entries a dispatch of the event awaits, in registration order. -/
def matching (entries : List (Subscription World Event Fault)) (event : Event) :
    List (Entry World Event Fault) :=
  entries.zipIdx.filter fun entry => entry.1.eventType event

/-- Await one handler. -/
def Heard.await (heard : Heard World Event) (entry : Entry World Event Fault) (event : Event) :
    Heard World Event × Handled World Event Fault :=
  let handled := entry.1.handler heard.world event
  (⟨handled.world, heard.calls ++ [(entry.2, event)]⟩, handled)

theorem mem_of_matching {entries : List (Subscription World Event Fault)} {event : Event}
    {entry : Entry World Event Fault} (named : entry ∈ matching entries event) :
    entry.1 ∈ entries :=
  List.fst_mem_of_mem_zipIdx (List.mem_filter.mp named).1

/-! ## The in-memory bus -/

structure InMemoryBus (Event : Type) where
  queue : List Event := []
  draining : Bool := false
deriving DecidableEq

namespace InMemoryBus

/-- `publish` from inside a handler, for each event: enqueue and unwind. -/
def enqueue (bus : InMemoryBus Event) (events : List Event) : InMemoryBus Event :=
  { bus with queue := bus.queue ++ events }

/-- What a dispatch raised, and how it left the handlers and the bus. -/
abbrev Dispatched (World Event Fault : Type) : Type :=
  Option (Raised Fault) × Heard World Event × InMemoryBus Event

/-- `Subscriptions.dispatch`, of the entries still to be awaited. -/
def dispatch : List (Entry World Event Fault) → Event → Heard World Event → InMemoryBus Event →
    Dispatched World Event Fault
  | [], _, heard, bus => (none, heard, bus)
  | entry :: rest, event, heard, bus =>
      let (heard, handled) := heard.await entry event
      let bus := bus.enqueue handled.published
      match handled.raised with
      | some raised => (some raised, heard, bus)
      | none => dispatch rest event heard bus

/-- The `while` loop of `publish`. -/
def drain (entries : List (Subscription World Event Fault)) :
    ℕ → Heard World Event → InMemoryBus Event → Option (Dispatched World Event Fault)
  | 0, _, _ => none
  | fuel + 1, heard, bus =>
      match bus.queue with
      | [] => some (none, heard, bus)
      | current :: queue =>
          match dispatch (matching entries current) current heard { bus with queue := queue } with
          | (some raised, heard, bus) => some (some raised, heard, { bus with queue := [] })
          | (none, heard, bus) => drain entries fuel heard bus

/-- `publish`. -/
def publish (entries : List (Subscription World Event Fault)) (fuel : ℕ) (event : Event)
    (heard : Heard World Event) (bus : InMemoryBus Event) :
    Option (Dispatched World Event Fault) :=
  let bus := bus.enqueue [event]
  if bus.draining then
    some (none, heard, bus)
  else
    (drain entries fuel heard { bus with draining := true }).map fun (raised, heard, bus) =>
      (raised, heard, { bus with draining := false })

/-- Top-level publishes, each awaited before the next: what each raised. -/
def publishEach (entries : List (Subscription World Event Fault)) (fuel : ℕ) :
    List Event → Heard World Event → InMemoryBus Event →
      Option (List (Option (Raised Fault)) × Heard World Event × InMemoryBus Event)
  | [], heard, bus => some ([], heard, bus)
  | event :: rest, heard, bus =>
      match publish entries fuel event heard bus with
      | none => none
      | some (raised, heard, bus) =>
          (publishEach entries fuel rest heard bus).map fun (later, heard, bus) =>
            (raised :: later, heard, bus)

/-! ## Reading the loop -/

variable {entries : List (Subscription World Event Fault)}

/-- What is left of a drain once a dispatch has come out so. -/
def finish (entries : List (Subscription World Event Fault)) (fuel : ℕ) :
    Dispatched World Event Fault → Option (Dispatched World Event Fault)
  | (some raised, heard, bus) => some (some raised, heard, { bus with queue := [] })
  | (none, heard, bus) => drain entries fuel heard bus

theorem drain_nil (fuel : ℕ) (heard : Heard World Event) (draining : Bool) :
    drain entries (fuel + 1) heard ⟨[], draining⟩ = some (none, heard, ⟨[], draining⟩) := rfl

theorem drain_cons (fuel : ℕ) (heard : Heard World Event) (current : Event) (queue : List Event)
    (draining : Bool) :
    drain entries (fuel + 1) heard ⟨current :: queue, draining⟩ =
      finish entries fuel (dispatch (matching entries current) current heard ⟨queue, draining⟩) := by
  simp only [drain]
  split <;> rename_i ran <;> rw [ran] <;> rfl

/-- A publish from inside a handler only enqueues. -/
theorem publish_draining (fuel : ℕ) (event : Event) (heard : Heard World Event)
    {bus : InMemoryBus Event} (inside : bus.draining = true) :
    publish entries fuel event heard bus = some (none, heard, bus.enqueue [event]) := by
  simp only [publish, enqueue, inside, if_true]

theorem dispatch_draining {rest : List (Entry World Event Fault)} {event : Event}
    {heard after : Heard World Event} {bus left : InMemoryBus Event}
    {raised : Option (Raised Fault)} (ran : dispatch rest event heard bus = (raised, after, left)) :
    left.draining = bus.draining := by
  induction rest generalizing heard bus with
  | nil => cases ran; rfl
  | cons entry rest ih =>
      simp only [dispatch] at ran
      split at ran
      · cases ran; rfl
      · exact (ih ran).trans rfl

/-- **A drain ends with nothing queued.** -/
theorem drain_clean {fuel : ℕ} {heard after : Heard World Event} {bus left : InMemoryBus Event}
    {raised : Option (Raised Fault)}
    (ran : drain entries fuel heard bus = some (raised, after, left)) :
    left = ⟨[], bus.draining⟩ := by
  induction fuel generalizing heard bus with
  | zero => cases ran
  | succ fuel ih =>
      obtain ⟨queue, draining⟩ := bus
      cases queue with
      | nil => cases ran; rfl
      | cons current queue =>
          rw [drain_cons] at ran
          match dispatched : dispatch (matching entries current) current heard ⟨queue, draining⟩ with
          | (some failed, between, mid) =>
              rw [dispatched] at ran
              cases ran
              have same : mid.draining = draining := dispatch_draining dispatched
              rw [same]
          | (none, between, mid) =>
              rw [dispatched] at ran
              have same : mid.draining = draining := dispatch_draining dispatched
              rw [ih ran, same]

/-- **A top-level publish on an idle bus leaves it idle**, whether or not it raised. -/
theorem publish_clean {fuel : ℕ} {event : Event} {heard after : Heard World Event}
    {left : InMemoryBus Event} {raised : Option (Raised Fault)}
    (ran : publish entries fuel event heard {} = some (raised, after, left)) :
    left = {} ∧ drain entries fuel heard ⟨[event], true⟩ = some (raised, after, ⟨[], true⟩) := by
  simp only [publish, enqueue, List.nil_append, Bool.false_eq_true, if_false, Option.map_eq_some_iff]
    at ran
  obtain ⟨⟨failed, between, mid⟩, drained, is⟩ := ran
  cases is
  have clean := drain_clean drained
  subst clean
  exact ⟨rfl, drained⟩

/-- The first of several publishes, and the rest. -/
theorem publishEach_cons {fuel : ℕ} {event : Event} {rest : List Event}
    {heard after : Heard World Event} {left : InMemoryBus Event}
    {outcomes : List (Option (Raised Fault))}
    (ran : publishEach entries fuel (event :: rest) heard {} = some (outcomes, after, left)) :
    ∃ raised between later, outcomes = raised :: later ∧
      drain entries fuel heard ⟨[event], true⟩ = some (raised, between, ⟨[], true⟩) ∧
      publishEach entries fuel rest between {} = some (later, after, left) := by
  simp only [publishEach] at ran
  split at ran
  · cases ran
  · rename_i raised between mid first
    obtain ⟨clean, drained⟩ := publish_clean first
    subst clean
    simp only [Option.map_eq_some_iff] at ran
    obtain ⟨⟨later, last, bus⟩, tail, is⟩ := ran
    cases is
    exact ⟨raised, between, later, rfl, drained, tail⟩

end InMemoryBus

end Tickwright.Bus
