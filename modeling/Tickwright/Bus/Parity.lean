/-
# Bus.Parity -- the two buses behave the same

One publisher publishes events one after another, each cascade ends, and handlers
publish only under the key of the event they handle and raise anything but
`asyncio.CancelledError`.  Then the poll loop, its fence and the publisher, however
their steps interleave, make the calls the FIFO trampoline makes, and each
`publish` comes out the same (`buses_agree`).

The records the consumer has not fetched, followed by what is held, are the
in-memory queue: a dispatch adds to the held events, a flush moves the first of
them to the end of the log, and a fetch takes the first record.  `Agrees` says what
the in-memory bus would still make of that queue is what the run is owed, under a
rank that each step lowers:

* `between` two publishes nothing is left over;
* `delivering`, the rest of the cascade is the in-memory one;
* `dropping` after a fault, the records left are fetched and passed over.

A `CancelledError` from a handler ends the poll task instead, and the `publish`
that began the cascade waits for ever (`Sample.cancelled_waits`).
-/
import Mathlib.Data.Prod.Lex
import Tickwright.Bus.Commits

namespace Tickwright.Bus

open Tickwright.Theory

set_option autoImplicit false

variable {World Event Fault Key Bytes : Type}

/-! ## Sends that succeed -/

/-- A send that does not reach the broker. -/
def Move.fails {Who : Type} : Move Fault Who → Bool
  | .sendFails _ _ | .flushFails _ => true
  | _ => false

/-- The bus over a broker that accepts every send, with one publisher. -/
def reliable (entries : List (Subscription World Event Fault))
    (topic : Topic Event Key Bytes Fault) :
    Machine (KafkaBus World Event Fault Bytes Unit) (Move Fault Unit) :=
  ⟨fun bus move => if move.fails then none else KafkaBus.step entries topic bus move⟩

namespace KafkaBus

/-- The one publisher. -/
def publisher (bus : KafkaBus World Event Fault Bytes Unit) : Publisher Event Fault :=
  bus.publishers ()

/-- Everything produced on the partition was consumed. -/
def SettledAt (bus : KafkaBus World Event Fault Bytes Unit) (partition : ℕ) : Prop :=
  bus.ledger.top partition ≤ bus.ledger.through partition ∧
    bus.ledger.through partition ≤ bus.position partition

/-- Nothing of any cascade is left over. -/
structure Clean (bus : KafkaBus World Event Fault Bytes Unit) : Prop where
  free : bus.poll = .idle
  read : ∀ partition, bus.unread partition = []
  sound : bus.dispatchFault = none
  sent : bus.held = []
  settled : ∀ partition, bus.SettledAt partition

end KafkaBus

/-- One past the offset a send has landed at and not yet been told of. -/
def Stage.landed : Stage → ℕ
  | .sent _ offset => offset + 1
  | _ => 0

/-- Publisher steps left before it has to wait. -/
def Stage.rank : Stage → ℕ
  | .sent _ _ => 2
  | .draining => 1
  | .waiting | .idle => 0

namespace Poll

/-- What the dispatch under way still does, on the in-memory bus. -/
def resume (poll : Poll World Event Fault) (heard : Heard World Event) (bus : InMemoryBus Event) :
    InMemoryBus.Dispatched World Event Fault :=
  match poll with
  | .running _ _ event rest => InMemoryBus.dispatch rest event heard bus
  | .idle | .ended => (none, heard, bus)

/-- The handlers of the record being dispatched that are yet to be awaited. -/
def awaited : Poll World Event Fault → ℕ
  | .running _ _ _ rest => rest.length
  | .idle | .ended => 0

/-- A dispatch under way has its commit still to make. -/
def rank : Poll World Event Fault → ℕ
  | .running _ _ _ _ => 2
  | .idle | .ended => 0

end Poll

/-! ## Inside a cascade -/

section Parity

variable (entries : List (Subscription World Event Fault)) (topic : Topic Event Key Bytes Fault)

/-- A cascade on one partition, with `queue` the events of the records not yet
fetched.  Every other partition is at rest; the ledger, with the send not yet told
of, reaches to the end of the log; and it is committed through to the record being
dispatched, or to all that was fetched. -/
structure Cascading (bus : KafkaBus World Event Fault Bytes Unit) (partition : ℕ)
    (queue : List Event) : Prop where
  elsewhere : ∀ other, other ≠ partition → bus.unread other = [] ∧ bus.SettledAt other
  queued : bus.unread partition = queue.map topic.encode
  placed : ∀ event ∈ queue, topic.partition event = partition
  kept : ∀ event ∈ bus.held, topic.partition event = partition
  produced : max (bus.ledger.top partition) bus.publisher.stage.landed =
    bus.position partition + queue.length
  sentHere : ∀ other offset, bus.publisher.stage = .sent other offset → other = partition
  reached : bus.ledger.through partition ≤ bus.position partition
  running : ∀ other offset event rest, bus.poll = .running other offset event rest →
    other = partition ∧ offset + 1 = bus.position partition ∧
      bus.ledger.through partition ≤ offset ∧ topic.partition event = partition ∧
      ∀ entry ∈ rest, entry.1 ∈ entries
  rested : bus.poll = .idle → bus.held = [] ∧
    (queue = [] → bus.ledger.through partition = bus.position partition)
  alive : bus.poll ≠ .ended
  begun : bus.publisher.stage ≠ .idle
  asleep : bus.publisher.stage = .waiting → bus.poll = .idle → queue ≠ []

/-- The measure of a run's progress: publishes to come, dispatches, handlers to
await, and last the sends and the two tasks' own steps. -/
abbrev Rank : Type := ℕ ×ₗ ℕ ×ₗ ℕ ×ₗ ℕ

def rankOf (publishes dispatches handlers steps : ℕ) : Rank :=
  toLex (publishes, toLex (dispatches, toLex (handlers, steps)))

/-- What the sends and the tasks' own steps add to the rank. -/
def KafkaBus.steps (bus : KafkaBus World Event Fault Bytes Unit) : ℕ :=
  3 * bus.held.length + bus.poll.rank + bus.publisher.stage.rank

/-- **The run is owed what the in-memory bus would still do**: `goal` is how every
publish comes out and what the handlers have heard by the end. -/
inductive Agrees (bound : ℕ) (goal : List (Option (Raised Fault)) × Heard World Event) :
    Rank → KafkaBus World Event Fault Bytes Unit → Prop
  | between {bus later left} (clean : bus.Clean) (idle : bus.publisher.stage = .idle)
      (ahead : InMemoryBus.publishEach entries bound bus.publisher.todo bus.heard {} =
        some (later, goal.2, left))
      (owed : goal.1 = bus.publisher.outcomes ++ later) :
      Agrees bound goal (rankOf (3 * bus.publisher.todo.length) 0 0 0) bus
  | delivering {bus partition queue fuel raised after later left}
      (cascade : Cascading entries topic bus partition queue) (sound : bus.dispatchFault = none)
      (outlook : InMemoryBus.finish entries fuel
        (bus.poll.resume bus.heard ⟨queue ++ bus.held, true⟩) = some (raised, after, ⟨[], true⟩))
      (ahead : InMemoryBus.publishEach entries bound bus.publisher.todo after {} =
        some (later, goal.2, left))
      (owed : goal.1 = bus.publisher.outcomes ++ raised :: later) :
      Agrees bound goal
        (rankOf (3 * bus.publisher.todo.length + 2) fuel bus.poll.awaited bus.steps) bus
  | dropping {bus partition queue fault later left}
      (cascade : Cascading entries topic bus partition queue) (free : bus.poll = .idle)
      (pending : bus.dispatchFault = some fault)
      (ahead : InMemoryBus.publishEach entries bound bus.publisher.todo bus.heard {} =
        some (later, goal.2, left))
      (owed : goal.1 = bus.publisher.outcomes ++ some (.fault fault) :: later) :
      Agrees bound goal
        (rankOf (3 * bus.publisher.todo.length + 1) queue.length 0 bus.steps) bus

/-! ## The rank -/

section Rank

variable {a a' b b' c c' d d' : ℕ}

theorem rank_publishes (less : a < a') : rankOf a b c d < rankOf a' b' c' d' :=
  Prod.Lex.toLex_lt_toLex.mpr (.inl less)

theorem rank_dispatches (less : b < b') : rankOf a b c d < rankOf a b' c' d' :=
  Prod.Lex.toLex_lt_toLex.mpr (.inr ⟨rfl, Prod.Lex.toLex_lt_toLex.mpr (.inl less)⟩)

theorem rank_handlers (less : c < c') : rankOf a b c d < rankOf a b c' d' :=
  Prod.Lex.toLex_lt_toLex.mpr (.inr ⟨rfl, Prod.Lex.toLex_lt_toLex.mpr
    (.inr ⟨rfl, Prod.Lex.toLex_lt_toLex.mpr (.inl less)⟩)⟩)

theorem rank_steps (less : d < d') : rankOf a b c d < rankOf a b c d' :=
  Prod.Lex.toLex_lt_toLex.mpr (.inr ⟨rfl, Prod.Lex.toLex_lt_toLex.mpr
    (.inr ⟨rfl, Prod.Lex.toLex_lt_toLex.mpr (.inr ⟨rfl, less⟩)⟩)⟩)

end Rank

/-! ## The publisher's steps -/

section Woken

variable (publisher : Publisher Event Fault)

/-- Waking changes the stage alone. -/
theorem woken_eq :
    publisher.woken = ⟨publisher.todo, publisher.woken.stage, publisher.outcomes⟩ := by
  rcases publisher with ⟨todo, stage, outcomes⟩
  cases stage <;> rfl

@[simp] theorem woken_landed : publisher.woken.stage.landed = publisher.stage.landed := by
  rcases publisher with ⟨todo, stage, outcomes⟩
  cases stage <;> rfl

theorem woken_rank : publisher.woken.stage.rank ≤ publisher.stage.rank + 1 := by
  rcases publisher with ⟨todo, stage, outcomes⟩
  cases stage <;> simp [Publisher.woken, Stage.rank]

theorem woken_ne_waiting : publisher.woken.stage ≠ .waiting := by
  rcases publisher with ⟨todo, stage, outcomes⟩
  cases stage <;> simp [Publisher.woken]

theorem woken_ne_idle (begun : publisher.stage ≠ .idle) : publisher.woken.stage ≠ .idle := by
  rcases publisher with ⟨todo, stage, outcomes⟩
  cases stage <;> simp_all [Publisher.woken]

theorem woken_sent {partition offset : ℕ} (sent : publisher.woken.stage = .sent partition offset) :
    publisher.stage = .sent partition offset := by
  rcases publisher with ⟨todo, stage, outcomes⟩
  cases stage <;> simp_all [Publisher.woken]

end Woken

variable {entries topic} {bus : KafkaBus World Event Fault Bytes Unit} {partition : ℕ}
  {queue : List Event}

namespace KafkaBus

@[simp] theorem publisher_setPublisher (publisher : Publisher Event Fault) :
    (bus.setPublisher () publisher).publisher = publisher := by
  simp only [KafkaBus.publisher, setPublisher, Function.update_self]

@[simp] theorem publisher_recordCommitted (offset : ℕ) :
    (bus.recordCommitted partition offset).publisher = bus.publisher.woken := rfl

theorem SettledAt.quiet (settled : bus.SettledAt partition) :
    ¬ bus.ledger.through partition < bus.ledger.top partition :=
  not_lt.mpr settled.1

end KafkaBus

namespace Cascading

open KafkaBus

/-- The send is told of. -/
theorem ack (cascade : Cascading entries topic bus partition queue) {todo : List Event}
    {other offset : ℕ} {outcomes : List (Option (Raised Fault))}
    (here : bus.publisher = ⟨todo, .sent other offset, outcomes⟩) :
    Cascading entries topic
      ({ bus with ledger := bus.ledger.recordProduced other offset }.setPublisher ()
        ⟨todo, .draining, outcomes⟩) partition queue := by
  have same : other = partition := cascade.sentHere other offset (by rw [here])
  subst same
  refine ⟨fun q ne => ⟨(cascade.elsewhere q ne).1, ?_⟩, cascade.queued, cascade.placed,
    cascade.kept, ?_, ?_, cascade.reached, cascade.running, cascade.rested, cascade.alive, ?_, ?_⟩
  · have settled := (cascade.elsewhere q ne).2
    simp only [SettledAt, setPublisher, DrainLedger.top_recordProduced, if_neg (Ne.symm ne)]
    exact settled
  · have produced := cascade.produced
    rw [here] at produced
    rw [publisher_setPublisher]
    simpa only [setPublisher, DrainLedger.top_recordProduced, if_true, Stage.landed, Nat.max_zero]
      using produced
  · rw [publisher_setPublisher]
    nofun
  · rw [publisher_setPublisher]
    nofun
  · rw [publisher_setPublisher]
    nofun

/-- Something is in flight: the publisher waits. -/
theorem waits (cascade : Cascading entries topic bus partition queue) {todo : List Event}
    {outcomes : List (Option (Raised Fault))} (here : bus.publisher = ⟨todo, .draining, outcomes⟩)
    (busy : bus.ledger.inFlight = true) :
    Cascading entries topic (bus.setPublisher () ⟨todo, .waiting, outcomes⟩) partition queue := by
  have produced := cascade.produced
  rw [here] at produced
  refine ⟨cascade.elsewhere, cascade.queued, cascade.placed, cascade.kept, ?_, ?_,
    cascade.reached, cascade.running, cascade.rested, cascade.alive, ?_, ?_⟩
  · rw [publisher_setPublisher]
    exact produced
  · rw [publisher_setPublisher]
    nofun
  · rw [publisher_setPublisher]
    nofun
  · -- were the cascade over, no partition would be in flight
    intro _ free done
    have through := (cascade.rested free).2 done
    obtain ⟨other, short⟩ := (DrainLedger.inFlight_iff _).mp busy
    by_cases same : other = partition
    · subst same
      rw [done] at produced
      simp only [Stage.landed, List.length_nil] at produced
      omega
    · exact (cascade.elsewhere other same).2.quiet short

/-- Nothing is in flight: the cascade is over. -/
theorem quiet (cascade : Cascading entries topic bus partition queue)
    (asks : bus.publisher.stage = .draining) (quiet : bus.ledger.inFlight = false) :
    bus.poll = .idle ∧ queue = [] := by
  have settled : ¬ bus.ledger.through partition < bus.ledger.top partition := fun short =>
    Bool.eq_false_iff.mp quiet ((DrainLedger.inFlight_iff _).mpr ⟨partition, short⟩)
  have produced := cascade.produced
  have reached := cascade.reached
  rw [asks] at produced
  simp only [Stage.landed] at produced
  cases at_ : bus.poll with
  | idle =>
      refine ⟨rfl, List.eq_nil_of_length_eq_zero ?_⟩
      omega
  | running other offset event rest =>
      obtain ⟨_, next, behind, _⟩ := cascade.running _ _ _ _ at_
      omega
  | ended => exact absurd at_ cascade.alive

/-- So the bus is at rest. -/
theorem clean (cascade : Cascading entries topic bus partition queue)
    (asks : bus.publisher.stage = .draining) (quiet : bus.ledger.inFlight = false)
    (publisher : Publisher Event Fault) :
    ({ bus with dispatchFault := none }.setPublisher () publisher).Clean := by
  obtain ⟨free, done⟩ := cascade.quiet asks quiet
  subst done
  have read (other : ℕ) : bus.unread other = [] := by
    by_cases same : other = partition
    · subst same
      exact cascade.queued
    · exact (cascade.elsewhere other same).1
  refine ⟨free, read, rfl, (cascade.rested free).1, fun other => ?_⟩
  by_cases same : other = partition
  · subst same
    have settled : ¬ bus.ledger.through other < bus.ledger.top other := fun short =>
      Bool.eq_false_iff.mp quiet ((DrainLedger.inFlight_iff _).mpr ⟨other, short⟩)
    exact ⟨not_lt.mp settled, cascade.reached⟩
  · exact (cascade.elsewhere other same).2

/-! ## The poll task's steps -/

/-- The front record is the front event's, on the cascade's partition. -/
theorem front (cascade : Cascading entries topic bus partition queue) {other : ℕ} {value : Bytes}
    {rest : List Bytes} (unread : bus.unread other = value :: rest) :
    other = partition ∧ ∃ event later, queue = event :: later ∧ value = topic.encode event ∧
      rest = later.map topic.encode := by
  have same : other = partition := by
    by_contra ne
    rw [(cascade.elsewhere other ne).1] at unread
    cases unread
  subst same
  rw [cascade.queued] at unread
  obtain ⟨event, later, is, rfl, rfl⟩ := List.map_eq_cons_iff.mp unread
  exact ⟨rfl, event, later, is, rfl, rfl⟩

/-- The front record's dispatch begins. -/
theorem begins {event : Event} (cascade : Cascading entries topic bus partition (event :: queue)) :
    Cascading entries topic
      { bus.fetched partition (queue.map topic.encode) with
        poll := .running partition (bus.position partition) event (matching entries event) }
      partition queue := by
  refine ⟨fun q ne => ?_, ?_, fun e named => cascade.placed e (List.mem_cons_of_mem _ named),
    cascade.kept, ?_, cascade.sentHere, ?_, ?_, nofun, nofun, cascade.begun, fun _ => nofun⟩
  · simp only [fetched, SettledAt, Function.update_of_ne ne]
    exact cascade.elsewhere q ne
  · simp only [fetched, Function.update_self]
  · have produced := cascade.produced
    simp only [fetched, Function.update_self]
    rw [List.length_cons] at produced
    exact produced.trans (by omega)
  · have reached := cascade.reached
    simp only [fetched, Function.update_self]
    omega
  · rintro other offset event' rest at_
    cases at_
    simp only [fetched, Function.update_self, true_and]
    exact ⟨cascade.reached, cascade.placed event List.mem_cons_self,
      fun entry named => mem_of_matching named⟩

/-- After a fault the front record is only passed over. -/
theorem drops {event : Event} (cascade : Cascading entries topic bus partition (event :: queue))
    (free : bus.poll = .idle) :
    Cascading entries topic
      { (bus.fetched partition (queue.map topic.encode)).recordCommitted partition
          (bus.position partition) with
        lost := bus.lost ++ [(partition, bus.position partition)] } partition queue := by
  have produced := cascade.produced
  have settled := cascade.reached
  refine ⟨fun q ne => ?_, ?_, fun e named => cascade.placed e (List.mem_cons_of_mem _ named),
    cascade.kept, ?_, fun _ _ sent => cascade.sentHere _ _ (woken_sent _ sent), ?_, ?_, ?_,
    cascade.alive, woken_ne_idle _ cascade.begun, fun waits => absurd waits (woken_ne_waiting _)⟩
  · simp only [fetched, recordCommitted, SettledAt, Function.update_of_ne ne,
      DrainLedger.top_recordCommitted, DrainLedger.through_recordCommitted, if_neg (Ne.symm ne)]
    exact cascade.elsewhere q ne
  · simp only [fetched, recordCommitted, Function.update_self]
  · rw [List.length_cons] at produced
    simp only [fetched, recordCommitted, KafkaBus.publisher, Function.update_self, woken_landed,
      DrainLedger.top_recordCommitted]
    exact produced.trans (by omega)
  · simp only [fetched, recordCommitted, Function.update_self,
      DrainLedger.through_recordCommitted, if_true, le_refl]
  · exact fun other offset event' rest at_ => absurd (free.symm.trans at_) nofun
  · refine fun _ => ⟨(cascade.rested free).1, fun _ => ?_⟩
    simp only [fetched, recordCommitted, Function.update_self,
      DrainLedger.through_recordCommitted, if_true]

/-- The record being dispatched is done with, and the poll task is free. -/
theorem closes (cascade : Cascading entries topic bus partition queue) {offset : ℕ} {event : Event}
    {rest : List (Entry World Event Fault)}
    (here : bus.poll = .running partition offset event rest)
    {next : KafkaBus World Event Fault Bytes Unit} (unread : next.unread = bus.unread)
    (position : next.position = bus.position)
    (ledger : next.ledger = bus.ledger.recordCommitted partition offset)
    (publisher : next.publisher = bus.publisher.woken) (free : next.poll = .idle)
    (sent : next.held = []) : Cascading entries topic next partition queue := by
  obtain ⟨_, ends, _⟩ := cascade.running _ _ _ _ here
  refine ⟨fun q ne => ?_, unread ▸ cascade.queued, cascade.placed, ?_, ?_, ?_, ?_, ?_, ?_, ?_, ?_, ?_⟩
  · simp only [SettledAt, unread, position, ledger, DrainLedger.top_recordCommitted,
      DrainLedger.through_recordCommitted, if_neg (Ne.symm ne)]
    exact cascade.elsewhere q ne
  · rw [sent]
    nofun
  · rw [position, ledger, publisher, woken_landed, DrainLedger.top_recordCommitted]
    exact cascade.produced
  · rw [publisher]
    exact fun _ _ sent => cascade.sentHere _ _ (woken_sent _ sent)
  · rw [position, ledger, DrainLedger.through_recordCommitted, if_pos rfl]
    exact ends.le
  · rw [free]
    nofun
  · refine fun _ => ⟨sent, fun _ => ?_⟩
    rw [position, ledger, DrainLedger.through_recordCommitted, if_pos rfl]
    exact ends
  · rw [free]
    nofun
  · rw [publisher]
    exact woken_ne_idle _ cascade.begun
  · rw [publisher]
    exact fun waits => absurd waits (woken_ne_waiting _)

/-- A handler returned; what it published is held. -/
theorem handles (cascade : Cascading entries topic bus partition queue) {offset : ℕ} {event : Event}
    {entry : Entry World Event Fault} {rest : List (Entry World Event Fault)}
    (here : bus.poll = .running partition offset event (entry :: rest)) {published : List Event}
    (placed : ∀ e ∈ published, topic.partition e = partition) (heard : Heard World Event) :
    Cascading entries topic
      { bus with
        heard := heard, held := bus.held ++ published
        poll := .running partition offset event rest } partition queue := by
  obtain ⟨same, ends, behind, at_, known⟩ := cascade.running _ _ _ _ here
  refine ⟨cascade.elsewhere, cascade.queued, cascade.placed, ?_, cascade.produced, cascade.sentHere,
    cascade.reached, ?_, nofun, nofun, cascade.begun, fun _ => nofun⟩
  · intro e named
    rcases List.mem_append.mp named with before | now
    · exact cascade.kept e before
    · exact placed e now
  · intro other offset' event' rest' now
    cases now
    exact ⟨same, ends, behind, at_, fun e named => known e (List.mem_cons_of_mem _ named)⟩

/-- The first held event is sent. -/
theorem flush (cascade : Cascading entries topic bus partition queue) {offset : ℕ}
    {event published : Event} {rest : List Event}
    (here : bus.poll = .running partition offset event []) (front : bus.held = published :: rest) :
    Cascading entries topic
      { bus.append (topic.partition published) (topic.encode published) with
        ledger := bus.ledger.recordProduced (topic.partition published)
          (bus.landing (topic.partition published))
        held := rest } partition (queue ++ [published]) := by
  have at_ : topic.partition published = partition :=
    cascade.kept published (front ▸ List.mem_cons_self)
  have length : bus.landing partition = bus.position partition + queue.length := by
    rw [landing, cascade.queued, List.length_map]
  subst at_
  refine ⟨fun q ne => ?_, ?_, ?_, ?_, ?_, cascade.sentHere, cascade.reached, cascade.running, ?_,
    cascade.alive, cascade.begun, fun _ free => absurd (here.symm.trans free) nofun⟩
  · simp only [append, SettledAt, Function.update_of_ne ne, DrainLedger.top_recordProduced,
      DrainLedger.through_recordProduced, if_neg (Ne.symm ne)]
    exact cascade.elsewhere q ne
  · simp only [append, Function.update_self, cascade.queued, List.map_append, List.map_cons,
      List.map_nil]
  · intro e named
    rcases List.mem_append.mp named with before | now
    · exact cascade.placed e before
    · cases List.mem_singleton.mp now
      rfl
  · exact fun e named => cascade.kept e (front ▸ List.mem_cons_of_mem _ named)
  · have produced := cascade.produced
    simp only [DrainLedger.top_recordProduced, if_true, length, List.length_append,
      List.length_singleton, append]
    change max _ bus.publisher.stage.landed = _
    omega
  · exact fun free => absurd (here.symm.trans free) nofun

/-- A send from a bus at rest begins a cascade of one record. -/
theorem start {event : Event} (clean : bus.Clean) (rest : List Event)
    (outcomes : List (Option (Raised Fault))) :
    Cascading entries topic
      ((bus.append (topic.partition event) (topic.encode event)).setPublisher ()
        ⟨rest, .sent (topic.partition event) (bus.landing (topic.partition event)), outcomes⟩)
      (topic.partition event) [event] := by
  have settled := clean.settled (topic.partition event)
  refine ⟨fun q ne => ?_, ?_, ?_, ?_, ?_, ?_, settled.2, ?_, fun _ => ⟨clean.sent, nofun⟩, ?_, ?_, ?_⟩
  · simp only [append, setPublisher, SettledAt, Function.update_of_ne ne]
    exact ⟨clean.read q, clean.settled q⟩
  · simp only [append, setPublisher, Function.update_self, clean.read, List.nil_append,
      List.map_cons, List.map_nil]
  · intro e named
    cases List.mem_singleton.mp named
    rfl
  · exact fun e named => absurd (clean.sent ▸ named : e ∈ []) List.not_mem_nil
  · have below := settled.1.trans settled.2
    rw [publisher_setPublisher]
    simp only [append, setPublisher, Stage.landed, landing, clean.read, List.length_nil,
      List.length_singleton]
    omega
  · rw [publisher_setPublisher]
    intro other offset sent
    cases sent
    rfl
  · exact fun other offset event' rest' at_ => absurd (clean.free.symm.trans at_) nofun
  · exact fun over_ => absurd (clean.free.symm.trans over_) nofun
  · rw [publisher_setPublisher]
    nofun
  · rw [publisher_setPublisher]
    nofun

end Cascading

/-! ## Every step lowers the rank -/

open KafkaBus

variable {bound : ℕ} {goal : List (Option (Raised Fault)) × Heard World Event} {rank : Rank}
  {next : KafkaBus World Event Fault Bytes Unit} {move : Move Fault Unit}

/-- How a step arrives between two publishes. -/
theorem Agrees.rest {todo : List Event} {later outcomes : List (Option (Raised Fault))}
    {left : InMemoryBus Event} {heard : Heard World Event} (clean : next.Clean)
    (idle : next.publisher = ⟨todo, .idle, outcomes⟩) (hears : next.heard = heard)
    (ahead : InMemoryBus.publishEach entries bound todo heard {} = some (later, goal.2, left))
    (owed : goal.1 = outcomes ++ later) (less : rankOf (3 * todo.length) 0 0 0 < rank) :
    ∃ rank' < rank, Agrees entries topic bound goal rank' next := by
  have stage : next.publisher.stage = .idle := by rw [idle]
  have coming : InMemoryBus.publishEach entries bound next.publisher.todo next.heard {} =
      some (later, goal.2, left) := by rw [idle, hears]; exact ahead
  refine ⟨_, ?_, .between clean stage coming (by rw [idle]; exact owed)⟩
  rw [idle]
  exact less

/-- How a step arrives in a cascade that goes on. -/
theorem Agrees.deliver {todo held : List Event} {stage : Stage} {fuel : ℕ}
    {raised : Option (Raised Fault)} {later outcomes : List (Option (Raised Fault))}
    {left : InMemoryBus Event} {heard after : Heard World Event} {poll : Poll World Event Fault}
    (cascade : Cascading entries topic next partition queue) (sound : next.dispatchFault = none)
    (at_ : next.publisher = ⟨todo, stage, outcomes⟩) (hears : next.heard = heard)
    (polls : next.poll = poll) (holds : next.held = held)
    (outlook : InMemoryBus.finish entries fuel (poll.resume heard ⟨queue ++ held, true⟩) =
      some (raised, after, ⟨[], true⟩))
    (ahead : InMemoryBus.publishEach entries bound todo after {} = some (later, goal.2, left))
    (owed : goal.1 = outcomes ++ raised :: later)
    (less : rankOf (3 * todo.length + 2) fuel poll.awaited
      (3 * held.length + poll.rank + stage.rank) < rank) :
    ∃ rank' < rank, Agrees entries topic bound goal rank' next := by
  have owes : InMemoryBus.finish entries fuel
      (next.poll.resume next.heard ⟨queue ++ next.held, true⟩) =
        some (raised, after, ⟨[], true⟩) := by rw [polls, hears, holds]; exact outlook
  have coming : InMemoryBus.publishEach entries bound next.publisher.todo after {} =
      some (later, goal.2, left) := by rw [at_]; exact ahead
  refine ⟨_, ?_, .delivering cascade sound owes coming (by rw [at_]; exact owed)⟩
  rw [steps, at_, polls, holds]
  exact less

/-- How a step arrives in a cascade that faulted. -/
theorem Agrees.drop {todo : List Event} {stage : Stage} {fault : Fault}
    {later outcomes : List (Option (Raised Fault))} {left : InMemoryBus Event}
    {heard : Heard World Event} (cascade : Cascading entries topic next partition queue)
    (free : next.poll = .idle) (pending : next.dispatchFault = some fault)
    (at_ : next.publisher = ⟨todo, stage, outcomes⟩) (hears : next.heard = heard)
    (ahead : InMemoryBus.publishEach entries bound todo heard {} = some (later, goal.2, left))
    (owed : goal.1 = outcomes ++ some (.fault fault) :: later)
    (less : rankOf (3 * todo.length + 1) queue.length 0 stage.rank < rank) :
    ∃ rank' < rank, Agrees entries topic bound goal rank' next := by
  have coming : InMemoryBus.publishEach entries bound next.publisher.todo next.heard {} =
      some (later, goal.2, left) := by rw [at_, hears]; exact ahead
  refine ⟨_, ?_, .dropping cascade free pending coming (by rw [at_]; exact owed)⟩
  rw [steps, at_, free, (cascade.rested free).1]
  simpa only [List.length_nil, Poll.rank, Nat.mul_zero, Nat.zero_add] using less

/-- A step from between two publishes. -/
theorem between_step {later : List (Option (Raised Fault))} {left : InMemoryBus Event}
    (clean : bus.Clean) (idle : bus.publisher.stage = .idle)
    (ahead : InMemoryBus.publishEach entries bound bus.publisher.todo bus.heard {} =
      some (later, goal.2, left))
    (owed : goal.1 = bus.publisher.outcomes ++ later) (sends : move.fails = false)
    (moved : Stepped entries topic bus move next) :
    ∃ rank' < rankOf (3 * bus.publisher.todo.length) 0 0 0,
      Agrees entries topic bound goal rank' next := by
  have busy {offset : ℕ} {event : Event} {partition : ℕ} {rest : List (Entry World Event Fault)} :
      bus.poll ≠ .running partition offset event rest := by
    rw [clean.free]
    nofun
  cases moved with
  | @send who event rest outcomes here =>
      have at_ : bus.publisher = ⟨event :: rest, .idle, outcomes⟩ := here
      rw [at_] at ahead owed ⊢
      obtain ⟨raised, between, tail, is, drained, onward⟩ := InMemoryBus.publishEach_cons ahead
      refine Agrees.deliver (Cascading.start clean rest outcomes) clean.sound
        (publisher_setPublisher _) rfl clean.free clean.sent drained onward ?_ ?_
      · rw [owed, is]
      · exact rank_publishes (by simp only [List.length_cons]; omega)
  | sendFails here => cases sends
  | ack here => cases idle.symm.trans (congrArg Publisher.stage here)
  | waits here => cases idle.symm.trans (congrArg Publisher.stage here)
  | returns here => cases idle.symm.trans (congrArg Publisher.stage here)
  | drops free unread => rw [clean.read] at unread; cases unread
  | undecodable free unread => rw [clean.read] at unread; cases unread
  | begins free unread => rw [clean.read] at unread; cases unread
  | handles here => exact absurd here busy
  | cancels here => exact absurd here busy
  | raises here => exact absurd here busy
  | flush here => exact absurd here busy
  | flushFails here => exact absurd here busy
  | commit here => exact absurd here busy

/-- A step of a cascade after its fault. -/
theorem dropping_step {fault : Fault} {later : List (Option (Raised Fault))}
    {left : InMemoryBus Event} (cascade : Cascading entries topic bus partition queue)
    (free : bus.poll = .idle) (pending : bus.dispatchFault = some fault)
    (ahead : InMemoryBus.publishEach entries bound bus.publisher.todo bus.heard {} =
      some (later, goal.2, left))
    (owed : goal.1 = bus.publisher.outcomes ++ some (.fault fault) :: later)
    (sends : move.fails = false) (moved : Stepped entries topic bus move next) :
    ∃ rank' < rankOf (3 * bus.publisher.todo.length + 1) queue.length 0 bus.steps,
      Agrees entries topic bound goal rank' next := by
  have busy {offset : ℕ} {event : Event} {partition : ℕ} {rest : List (Entry World Event Fault)} :
      bus.poll ≠ .running partition offset event rest := by
    rw [free]
    nofun
  cases moved with
  | send here => exact absurd (congrArg Publisher.stage here) cascade.begun
  | sendFails here => cases sends
  | @ack who todo other offset outcomes here =>
      have at_ : bus.publisher = ⟨todo, .sent other offset, outcomes⟩ := here
      rw [at_] at ahead owed ⊢
      refine Agrees.drop (cascade.ack at_) free pending (publisher_setPublisher _) rfl ahead owed
        (rank_steps ?_)
      simp only [steps, at_, Stage.rank]
      omega
  | @waits who todo outcomes here busy =>
      have at_ : bus.publisher = ⟨todo, .draining, outcomes⟩ := here
      rw [at_] at ahead owed ⊢
      refine Agrees.drop (cascade.waits at_ busy) free pending (publisher_setPublisher _) rfl ahead
        owed (rank_steps ?_)
      simp only [steps, at_, Stage.rank]
      omega
  | @returns who todo outcomes here quiet =>
      have at_ : bus.publisher = ⟨todo, .draining, outcomes⟩ := here
      have asks : bus.publisher.stage = .draining := by rw [at_]
      rw [at_] at ahead owed ⊢
      refine Agrees.rest (cascade.clean asks quiet _) (publisher_setPublisher _) rfl ahead ?_
        (rank_publishes (Nat.lt_succ_self _))
      rw [owed, pending, List.append_assoc]
      rfl
  | @drops other value rest _ _ unread _ =>
      obtain ⟨rfl, event, queue, rfl, rfl, rfl⟩ := cascade.front unread
      exact Agrees.drop (cascade.drops free) free pending (woken_eq bus.publisher) rfl ahead owed
        (rank_dispatches (by simp only [List.length_cons]; omega))
  | undecodable _ _ sound => cases pending.symm.trans sound
  | begins _ _ sound => cases pending.symm.trans sound
  | handles here => exact absurd here busy
  | cancels here => exact absurd here busy
  | raises here => exact absurd here busy
  | flush here => exact absurd here busy
  | flushFails here => exact absurd here busy
  | commit here => exact absurd here busy

/-- What a handler publishes goes under the key of what it handled. -/
def SameKey (entries : List (Subscription World Event Fault))
    (topic : Topic Event Key Bytes Fault) : Prop :=
  ∀ entry ∈ entries, ∀ world event, ∀ published ∈ (entry.handler world event).published,
    topic.partitionKey published = topic.partitionKey event

/-- No handler raises `asyncio.CancelledError`. -/
def Uncancelled (entries : List (Subscription World Event Fault)) : Prop :=
  ∀ entry ∈ entries, ∀ world event, (entry.handler world event).raised ≠ some .cancelled

/-- A step of a cascade that goes on. -/
theorem delivering_step (undoes : ∀ event, topic.decode (topic.encode event) = .ok event)
    (sameKey : SameKey entries topic) (uncancelled : Uncancelled entries) {fuel : ℕ}
    {raised : Option (Raised Fault)} {later : List (Option (Raised Fault))}
    {left : InMemoryBus Event} {after : Heard World Event}
    (cascade : Cascading entries topic bus partition queue) (sound : bus.dispatchFault = none)
    (outlook : InMemoryBus.finish entries fuel
      (bus.poll.resume bus.heard ⟨queue ++ bus.held, true⟩) = some (raised, after, ⟨[], true⟩))
    (ahead : InMemoryBus.publishEach entries bound bus.publisher.todo after {} =
      some (later, goal.2, left))
    (owed : goal.1 = bus.publisher.outcomes ++ raised :: later) (sends : move.fails = false)
    (moved : Stepped entries topic bus move next) :
    ∃ rank' < rankOf (3 * bus.publisher.todo.length + 2) fuel bus.poll.awaited bus.steps,
      Agrees entries topic bound goal rank' next := by
  cases moved with
  | send here => exact absurd (congrArg Publisher.stage here) cascade.begun
  | sendFails here => cases sends
  | @ack who todo other offset outcomes here =>
      have at_ : bus.publisher = ⟨todo, .sent other offset, outcomes⟩ := here
      rw [at_] at ahead owed ⊢
      refine Agrees.deliver (cascade.ack at_) sound (publisher_setPublisher _) rfl rfl rfl outlook
        ahead owed (rank_steps ?_)
      simp only [steps, at_, Stage.rank, setPublisher]
      omega
  | @waits who todo outcomes here busy =>
      have at_ : bus.publisher = ⟨todo, .draining, outcomes⟩ := here
      rw [at_] at ahead owed ⊢
      refine Agrees.deliver (cascade.waits at_ busy) sound (publisher_setPublisher _) rfl rfl rfl
        outlook ahead owed (rank_steps ?_)
      simp only [steps, at_, Stage.rank, setPublisher]
      omega
  | @returns who todo outcomes here quiet =>
      have at_ : bus.publisher = ⟨todo, .draining, outcomes⟩ := here
      have asks : bus.publisher.stage = .draining := by rw [at_]
      obtain ⟨free, rfl⟩ := cascade.quiet asks quiet
      rw [free, (cascade.rested free).1] at outlook
      cases fuel with
      | zero => cases outlook
      | succ fuel =>
          cases outlook
          rw [at_] at ahead owed ⊢
          refine Agrees.rest (cascade.clean asks quiet _) (publisher_setPublisher _) rfl ahead ?_
            (rank_publishes (by dsimp only; omega))
          rw [owed, sound, List.append_assoc]
          rfl
  | drops _ _ pending => cases sound.symm.trans pending
  | undecodable _ unread _ garbled =>
      obtain ⟨rfl, event, queue, rfl, rfl, rfl⟩ := cascade.front unread
      cases (undoes event).symm.trans garbled
  | @begins other value rest decoded free unread _ reads =>
      obtain ⟨rfl, event, queue, rfl, rfl, rfl⟩ := cascade.front unread
      cases (undoes event).symm.trans reads
      have sent := (cascade.rested free).1
      rw [free, sent, List.append_nil] at outlook
      cases fuel with
      | zero => cases outlook
      | succ fuel =>
          simp only [Poll.resume, InMemoryBus.finish, InMemoryBus.drain_cons] at outlook
          refine Agrees.deliver cascade.begins sound rfl rfl rfl sent ?_ ahead owed
            (rank_dispatches (Nat.lt_succ_self _))
          rw [List.append_nil]
          exact outlook
  | @handles other offset event entry rest handled heard here called returned =>
      obtain ⟨rfl, _, _, at_, known⟩ := cascade.running _ _ _ _ here
      have placed : ∀ e ∈ handled.published, topic.partition e = other := by
        intro e named
        cases called
        rw [← at_, Topic.partition, Topic.partition,
          sameKey entry.1 (known entry List.mem_cons_self) _ _ e named]
      rw [here] at outlook ⊢
      simp only [Poll.resume, InMemoryBus.dispatch, called, returned, InMemoryBus.enqueue,
        List.append_assoc] at outlook
      exact Agrees.deliver (cascade.handles here placed heard) sound rfl rfl rfl rfl outlook ahead
        owed (rank_handlers (Nat.lt_succ_self _))
  | @cancels other offset event entry rest handled heard here called raises =>
      obtain ⟨_, _, _, _, known⟩ := cascade.running _ _ _ _ here
      cases called
      exact absurd raises (uncancelled entry.1 (known entry List.mem_cons_self) _ _)
  | @raises other offset event entry rest handled heard fault here called raises =>
      obtain ⟨rfl, _⟩ := cascade.running _ _ _ _ here
      rw [here] at outlook
      simp only [Poll.resume, InMemoryBus.dispatch, called, raises] at outlook
      cases outlook
      exact Agrees.drop (cascade.closes here rfl rfl rfl rfl rfl rfl) rfl rfl
        (woken_eq bus.publisher) rfl ahead owed (rank_publishes (Nat.lt_succ_self _))
  | @flush other offset event published rest here front =>
      obtain ⟨rfl, _⟩ := cascade.running _ _ _ _ here
      rw [here, front, List.append_cons] at outlook
      refine Agrees.deliver (cascade.flush here front) sound rfl rfl here rfl outlook ahead owed ?_
      rw [here]
      refine rank_steps ?_
      simp only [steps, here, front, List.length_cons]
      change _ + bus.publisher.stage.rank < _
      omega
  | flushFails here => cases sends
  | @commit other offset event here sent =>
      obtain ⟨rfl, _⟩ := cascade.running _ _ _ _ here
      rw [here, sent] at outlook
      refine Agrees.deliver (cascade.closes here rfl rfl rfl rfl rfl sent) sound
        (woken_eq bus.publisher) rfl rfl sent outlook ahead owed ?_
      have wakes := woken_rank bus.publisher
      rw [here]
      refine rank_steps ?_
      simp only [steps, here, sent, Poll.rank]
      omega

/-- **Every step lowers the rank and keeps what the run is owed.** -/
theorem agrees_step (undoes : ∀ event, topic.decode (topic.encode event) = .ok event)
    (sameKey : SameKey entries topic) (uncancelled : Uncancelled entries)
    (agrees : Agrees entries topic bound goal rank bus)
    (stepped : (reliable entries topic).step bus move = some next) :
    ∃ rank' < rank, Agrees entries topic bound goal rank' next := by
  simp only [reliable] at stepped
  split at stepped
  · cases stepped
  · rename_i sends
    have moved := step_cases stepped
    rw [Bool.not_eq_true] at sends
    cases agrees with
    | between clean idle ahead owed => exact between_step clean idle ahead owed sends moved
    | delivering cascade sound outlook ahead owed =>
        exact delivering_step undoes sameKey uncancelled cascade sound outlook ahead owed sends moved
    | dropping cascade free pending ahead owed =>
        exact dropping_step cascade free pending ahead owed sends moved

/-! ## A run stops only when everything is published -/

theorem reliable_step (sends : move.fails = false) :
    (reliable entries topic).step bus move = step entries topic bus move := by
  simp only [reliable, sends, Bool.false_eq_true, if_false]

/-- While a cascade goes on, one of the two tasks can move. -/
theorem Cascading.enabled (cascade : Cascading entries topic bus partition queue) :
    ∃ move, (reliable entries topic).step bus move ≠ none := by
  cases at_ : bus.publishers () with
  | mk todo stage outcomes =>
      have stage_ : bus.publisher.stage = stage := congrArg Publisher.stage at_
      cases stage with
      | idle => exact absurd stage_ cascade.begun
      | sent other offset =>
          refine ⟨.ack (), ?_⟩
          rw [reliable_step rfl]
          simp [step, at_]
      | draining =>
          refine ⟨.check (), ?_⟩
          rw [reliable_step rfl]
          simp only [step, at_]
          split <;> simp
      | waiting =>
          cases here : bus.poll with
          | ended => exact absurd here cascade.alive
          | idle =>
              refine ⟨.fetch partition, ?_⟩
              cases queue with
              | nil => exact absurd rfl (cascade.asleep stage_ here)
              | cons event later =>
                  rw [reliable_step rfl]
                  simp only [step, here, cascade.queued, List.map_cons]
                  split <;> simp
          | running other offset event rest =>
              cases rest with
              | cons entry rest =>
                  refine ⟨.handle, ?_⟩
                  rw [reliable_step rfl]
                  simp only [step, here]
                  split <;> simp
              | nil =>
                  cases held : bus.held with
                  | nil =>
                      refine ⟨.commit, ?_⟩
                      rw [reliable_step rfl]
                      simp [step, here, held]
                  | cons published later =>
                      refine ⟨.flush, ?_⟩
                      rw [reliable_step rfl]
                      simp [step, here, held]

/-- **A run that cannot go on has everything it is owed.** -/
theorem Agrees.stuck (agrees : Agrees entries topic bound goal rank bus)
    (stuck : ∀ move, (reliable entries topic).step bus move = none) :
    bus.publisher = ⟨[], .idle, goal.1⟩ ∧ bus.heard = goal.2 := by
  cases agrees with
  | between clean idle ahead owed =>
      cases at_ : bus.publisher with
      | mk todo stage outcomes =>
          rw [at_] at ahead owed idle
          cases idle
          cases todo with
          | nil =>
              simp only [InMemoryBus.publishEach, Option.some.injEq, Prod.mk.injEq] at ahead
              obtain ⟨rfl, heard, _⟩ := ahead
              rw [owed, List.append_nil]
              exact ⟨rfl, heard⟩
          | cons event rest =>
              have there : bus.publishers () = ⟨event :: rest, .idle, outcomes⟩ := at_
              have sends := stuck (.send ())
              rw [reliable_step rfl] at sends
              simp only [step, there] at sends
              cases sends
  | delivering cascade =>
      obtain ⟨move, moves⟩ := cascade.enabled
      exact absurd (stuck move) moves
  | dropping cascade =>
      obtain ⟨move, moves⟩ := cascade.enabled
      exact absurd (stuck move) moves

/-- Between two publishes nothing is left over. -/
theorem Agrees.clean (agrees : Agrees entries topic bound goal rank bus)
    (idle : bus.publisher.stage = .idle) : bus.Clean := by
  cases agrees with
  | between clean => exact clean
  | delivering cascade => exact absurd idle cascade.begun
  | dropping cascade => exact absurd idle cascade.begun

end Parity

/-! ## Parity -/

open KafkaBus

variable (entries : List (Subscription World Event Fault)) (topic : Topic Event Key Bytes Fault)

/-- **The two buses behave the same.**  Take publishes whose cascades the in-memory
bus ends.  Every run of the Kafka bus over them is finite; one that cannot go on
has made the same calls in the same order and left the handlers alike, and each
`publish` has returned or raised as it did in memory; and between two publishes
neither bus has anything of the last cascade left. -/
theorem buses_agree (undoes : ∀ event, topic.decode (topic.encode event) = .ok event)
    (sameKey : SameKey entries topic) (uncancelled : Uncancelled entries) {fuel : ℕ}
    {script : List Event} {world : World} {outcomes : List (Option (Raised Fault))}
    {heard : Heard World Event} {left : InMemoryBus Event}
    (ends : InMemoryBus.publishEach entries fuel script { world := world } {} =
      some (outcomes, heard, left))
    {start : KafkaBus World Event Fault Bytes Unit} (clean : start.Clean)
    (begins : start.publisher = { todo := script }) (same : start.heard = { world := world }) :
    (∀ (states : ℕ → KafkaBus World Event Fault Bytes Unit) (moves : ℕ → Move Fault Unit),
      states 0 = start →
      ¬ ∀ n, (reliable entries topic).step (states n) (moves n) = some (states (n + 1))) ∧
    (∀ moves bus, (reliable entries topic).run start moves = some bus →
      (bus.publisher.stage = .idle → bus.Clean) ∧
      ((∀ move, (reliable entries topic).step bus move = none) →
        bus.publisher = ⟨[], .idle, outcomes⟩ ∧ bus.heard = heard)) ∧
    (∀ fuel event before raised after left,
      InMemoryBus.publish entries fuel event before {} = some (raised, after, left) → left = {}) := by
  have ahead : InMemoryBus.publishEach entries fuel start.publisher.todo start.heard {} =
      some (outcomes, heard, left) := by
    rw [begins, same]
    exact ends
  have owed : outcomes = start.publisher.outcomes ++ outcomes := by
    rw [begins, List.nil_append]
  have begun : Agrees entries topic fuel (outcomes, heard) _ start :=
    .between clean (by rw [begins]) ahead owed
  refine ⟨fun states moves first goes => ?_, fun moves bus ran => ?_, fun _ _ _ _ _ _ published =>
    (InMemoryBus.publish_clean published).1⟩
  · subst first
    exact Machine.not_endless (Agrees entries topic fuel (outcomes, heard))
      (agrees_step undoes sameKey uncancelled) states moves begun goes
  · have reached : ∃ rank, Agrees entries topic fuel (outcomes, heard) rank bus := by
      refine Machine.run_induct (fun bus => ∃ rank, Agrees entries topic fuel (outcomes, heard) rank bus)
        ?_ ⟨_, begun⟩ ran
      rintro here move next ⟨rank, agrees⟩ moved
      obtain ⟨rank', _, after⟩ := agrees_step undoes sameKey uncancelled agrees moved
      exact ⟨rank', after⟩
    obtain ⟨rank, agrees⟩ := reached
    exact ⟨agrees.clean, agrees.stuck⟩

/-! ## A relay, and a handler that is cancelled -/

namespace Sample

/-- A handler that answers tick 2 with tick 0. -/
def relays : Subscription Unit ℕ String where
  eventType _ := true
  handler _ tick := { world := (), published := if tick = 2 then [0] else [] }

/-- A handler that raises `asyncio.CancelledError`. -/
def cancels : Subscription Unit ℕ String where
  eventType _ := true
  handler _ _ := { world := (), raised := some .cancelled }

/-- Tick 2, its answer, and the fault the answer meets. -/
def relayed : List (Move String Unit) :=
  [.send (), .fetch 0, .handle, .ack (), .handle, .check (), .flush, .commit, .fetch 0, .handle,
    .handle, .check ()]

/-- After the publish that raised, the bus is at rest. -/
theorem relayed_clean :
    ∃ bus, (reliable [relays, chokes] ticks).run (opening [2, 1]) relayed = some bus ∧
      bus.publisher.outcomes = [some (.fault "choked")] ∧ bus.Clean := by
  have clean : (opening [2, 1]).Clean := ⟨rfl, fun _ => rfl, rfl, rfl, fun _ => ⟨le_refl _, le_refl _⟩⟩
  have sameKey : SameKey [relays, chokes] ticks := fun _ _ _ _ _ _ => rfl
  have uncancelled : Uncancelled [relays, chokes] := by
    intro entry named world event
    rcases List.mem_cons.mp named with rfl | named
    · exact nofun
    · cases List.mem_singleton.mp named
      simp only [chokes]
      split <;> exact nofun
  have ends : InMemoryBus.publishEach [relays, chokes] 3 [2, 1] { world := () } {} =
      some ([some (.fault "choked"), none],
        ⟨(), [(0, 2), (1, 2), (0, 0), (1, 0), (0, 1), (1, 1)]⟩, {}) := rfl
  have agree := buses_agree [relays, chokes] ticks (fun _ => rfl) sameKey uncancelled ends clean rfl rfl
  exact ⟨_, rfl, rfl, (agree.2.1 relayed _ rfl).1 rfl⟩

/-- **A handler that raises `CancelledError` parts the buses**: in memory the publish
raises it; on Kafka the poll task is over, the publisher waits, and no task moves. -/
theorem cancelled_waits :
    InMemoryBus.publishEach [cancels] 2 [0] { world := () } {} =
        some ([some .cancelled], ⟨(), [(0, 0)]⟩, {}) ∧
      ∃ bus, (reliable [cancels] ticks).run (opening [0])
          [.send (), .ack (), .check (), .fetch 0, .handle] = some bus ∧
        bus.publisher = ⟨[], .waiting, []⟩ ∧
        ∀ move, (reliable [cancels] ticks).step bus move = none := by
  refine ⟨rfl, _, rfl, rfl, fun move => ?_⟩
  cases move <;> rfl

end Sample

end Tickwright.Bus
