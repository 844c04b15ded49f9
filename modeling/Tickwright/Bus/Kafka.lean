/-
# Bus.Kafka -- the poll loop over one keyed topic

A topic is one log per partition; a record's key picks its partition, so one key
keeps its order.  `position` is what the consumer fetches next on a partition,
`unread` the records from there on, and `committed` what the group has committed.

Two kinds of task take steps.  A top-level publisher sends its event, learns
where it landed (`recordProduced`), and waits until the ledger shows nothing in
flight.  The poll task fetches one record, awaits its handlers, sends what they
published, commits, and only then fetches again.  A handler's own publishes are
held until its dispatch has returned.  Every interleaving of these steps is a run.

`calls` (in `heard`) and `lost` are kept for the statements alone: the handler
calls made, and the records whose dispatch raised or that were dropped.
-/
import Mathlib.Algebra.Order.Group.Nat
import Mathlib.Logic.Function.Basic
import Tickwright.Bus.InMemory
import Tickwright.Theory.Dict
import Tickwright.Theory.Machine

namespace Tickwright.Bus

open Tickwright.Theory

set_option autoImplicit false

/-! ## The drain fence -/

structure DrainLedger where
  producedHighWater : Dict ℕ ℕ := .empty
  committedPosition : Dict ℕ ℕ := .empty

namespace DrainLedger

/-- `record_produced`; `-1` is the source's default. -/
def recordProduced (ledger : DrainLedger) (partition offset : ℕ) : DrainLedger :=
  let highWater := match ledger.producedHighWater.get partition with
    | none => offset
    | some current => max current offset
  { ledger with producedHighWater := ledger.producedHighWater.set partition highWater }

/-- `record_committed`. -/
def recordCommitted (ledger : DrainLedger) (partition offset : ℕ) : DrainLedger :=
  { ledger with committedPosition := ledger.committedPosition.set partition (offset + 1) }

/-- The position committed through; `0` where nothing was. -/
def through (ledger : DrainLedger) (partition : ℕ) : ℕ :=
  (ledger.committedPosition.get partition).getD 0

/-- `in_flight`. -/
def inFlight (ledger : DrainLedger) : Bool :=
  ledger.producedHighWater.entries.any fun (partition, highWater) =>
    decide (ledger.through partition ≤ highWater)

/-- One past the highest offset produced; `0` where nothing was. -/
def top (ledger : DrainLedger) (partition : ℕ) : ℕ :=
  match ledger.producedHighWater.get partition with
  | none => 0
  | some highWater => highWater + 1

variable (ledger : DrainLedger) (partition other offset : ℕ)

@[simp] theorem top_recordProduced :
    (ledger.recordProduced partition offset).top other =
      if partition = other then max (ledger.top partition) (offset + 1) else ledger.top other := by
  simp only [top, recordProduced, Dict.get_set]
  by_cases same : partition = other
  · subst same
    simp only [if_true]
    cases ledger.producedHighWater.get partition with
    | none => simp
    | some current => simp only; omega
  · simp only [if_neg same]

@[simp] theorem through_recordProduced :
    (ledger.recordProduced partition offset).through other = ledger.through other := rfl

@[simp] theorem top_recordCommitted :
    (ledger.recordCommitted partition offset).top other = ledger.top other := rfl

@[simp] theorem through_recordCommitted :
    (ledger.recordCommitted partition offset).through other =
      if partition = other then offset + 1 else ledger.through other := by
  simp only [through, recordCommitted, Dict.get_set]
  split <;> rfl

/-- Something is in flight where a partition was produced past what was committed. -/
theorem inFlight_iff : ledger.inFlight = true ↔ ∃ partition, ledger.through partition < ledger.top partition := by
  simp only [inFlight, List.any_eq_true, decide_eq_true_eq, Prod.exists, top]
  constructor
  · rintro ⟨partition, highWater, there, short⟩
    rw [← Dict.get_eq_some] at there
    refine ⟨partition, ?_⟩
    rw [there]
    exact Nat.lt_succ_of_le short
  · rintro ⟨partition, short⟩
    cases there : ledger.producedHighWater.get partition with
    | none =>
        rw [there] at short
        exact absurd short (Nat.not_lt_zero _)
    | some highWater =>
        rw [there] at short
        exact ⟨partition, highWater, (Dict.get_eq_some _ _ _).mp there, Nat.le_of_lt_succ short⟩

end DrainLedger

/-! ## The bus -/

/-- The serde codec and the topic's keys: which partition a key lands on. -/
structure Topic (Event Key Bytes Fault : Type) where
  encode : Event → Bytes
  decode : Bytes → Except Fault Event
  partitionKey : Event → Key
  partitionOf : Key → ℕ

variable {World Event Fault Key Bytes Who : Type}

/-- The partition an event's record lands on. -/
def Topic.partition (topic : Topic Event Key Bytes Fault) (event : Event) : ℕ :=
  topic.partitionOf (topic.partitionKey event)

/-- Where a top-level `publish` is. -/
inductive Stage where
  | idle
  /-- The record landed; `send_and_wait` has not returned. -/
  | sent (partition offset : ℕ)
  /-- About to ask whether anything is in flight. -/
  | draining
  /-- Blocked until the next `record_committed`. -/
  | waiting
deriving DecidableEq

/-- A task that publishes from outside the handlers: what it has yet to publish,
where it is, and how each finished `publish` ended. -/
structure Publisher (Event Fault : Type) where
  todo : List Event
  stage : Stage := .idle
  outcomes : List (Option (Raised Fault)) := []
deriving DecidableEq

/-- A progress signal wakes every publisher that waits for one. -/
def Publisher.woken (publisher : Publisher Event Fault) : Publisher Event Fault :=
  match publisher.stage with
  | .waiting => { publisher with stage := .draining }
  | _ => publisher

/-- Where the poll task is. -/
inductive Poll (World Event Fault : Type) where
  /-- Awaiting `getone`. -/
  | idle
  /-- Dispatching the record at this place; `rest` is yet to be awaited. -/
  | running (partition offset : ℕ) (event : Event) (rest : List (Entry World Event Fault))
  /-- The task is over: a `CancelledError` left the loop. -/
  | ended

structure KafkaBus (World Event Fault Bytes Who : Type) where
  unread : ℕ → List Bytes
  position : ℕ → ℕ
  committed : ℕ → ℕ
  ledger : DrainLedger
  dispatchFault : Option Fault
  held : List Event
  poll : Poll World Event Fault
  publishers : Who → Publisher Event Fault
  heard : Heard World Event
  lost : List (ℕ × ℕ)

/-- One step of one task.  A send may fail. -/
inductive Move (Fault Who : Type) where
  | send (who : Who)
  | sendFails (who : Who) (fault : Fault)
  | ack (who : Who)
  | check (who : Who)
  | fetch (partition : ℕ)
  | handle
  | flush
  | flushFails (fault : Fault)
  | commit
deriving DecidableEq

namespace KafkaBus

/-- The broker appends a record. -/
def append (bus : KafkaBus World Event Fault Bytes Who) (partition : ℕ) (value : Bytes) :
    KafkaBus World Event Fault Bytes Who :=
  { bus with
    unread := Function.update bus.unread partition (bus.unread partition ++ [value]) }

/-- The offset the next record on the partition lands at. -/
def landing (bus : KafkaBus World Event Fault Bytes Who) (partition : ℕ) : ℕ :=
  bus.position partition + (bus.unread partition).length

/-- `record_committed`: the ledger moves, and whoever waits for progress wakes. -/
def recordCommitted (bus : KafkaBus World Event Fault Bytes Who) (partition offset : ℕ) :
    KafkaBus World Event Fault Bytes Who :=
  { bus with
    ledger := bus.ledger.recordCommitted partition offset
    publishers := fun who => (bus.publishers who).woken }

/-- The `except BaseException` branch of the poll loop. -/
def faulted (bus : KafkaBus World Event Fault Bytes Who) (partition offset : ℕ) (fault : Fault) :
    KafkaBus World Event Fault Bytes Who :=
  let bus := bus.recordCommitted partition offset
  { bus with
    dispatchFault := some fault, held := [], poll := .idle, lost := bus.lost ++ [(partition, offset)] }

variable [DecidableEq Who]

/-- A publisher moves on. -/
def setPublisher (bus : KafkaBus World Event Fault Bytes Who) (who : Who)
    (publisher : Publisher Event Fault) : KafkaBus World Event Fault Bytes Who :=
  { bus with publishers := Function.update bus.publishers who publisher }

variable (entries : List (Subscription World Event Fault)) (topic : Topic Event Key Bytes Fault)

/-- One step; `none` where the task named is not there to take it. -/
def step (bus : KafkaBus World Event Fault Bytes Who) :
    Move Fault Who → Option (KafkaBus World Event Fault Bytes Who)
  | .send who =>
      match bus.publishers who with
      | ⟨event :: rest, .idle, outcomes⟩ =>
          let partition := topic.partition event
          some ((bus.append partition (topic.encode event)).setPublisher who
            ⟨rest, .sent partition (bus.landing partition), outcomes⟩)
      | _ => none
  | .sendFails who fault =>
      match bus.publishers who with
      | ⟨_ :: rest, .idle, outcomes⟩ =>
          some (bus.setPublisher who ⟨rest, .idle, outcomes ++ [some (.fault fault)]⟩)
      | _ => none
  | .ack who =>
      match bus.publishers who with
      | ⟨todo, .sent partition offset, outcomes⟩ =>
          some ({ bus with ledger := bus.ledger.recordProduced partition offset }.setPublisher who
            ⟨todo, .draining, outcomes⟩)
      | _ => none
  | .check who =>
      match bus.publishers who with
      | ⟨todo, .draining, outcomes⟩ =>
          if bus.ledger.inFlight then
            some (bus.setPublisher who ⟨todo, .waiting, outcomes⟩)
          else
            -- `_reraise_dispatch_fault` pops what it raises
            some ({ bus with dispatchFault := none }.setPublisher who
              ⟨todo, .idle, outcomes ++ [bus.dispatchFault.map Raised.fault]⟩)
      | _ => none
  | .fetch partition =>
      match bus.poll, bus.unread partition with
      | .idle, value :: rest =>
          let offset := bus.position partition
          let fetched := { bus with
            unread := Function.update bus.unread partition rest
            position := Function.update bus.position partition (offset + 1) }
          match bus.dispatchFault, topic.decode value with
          | some _, _ =>
              some { fetched.recordCommitted partition offset with
                lost := bus.lost ++ [(partition, offset)] }
          | none, .error fault => some (fetched.faulted partition offset fault)
          | none, .ok event =>
              some { fetched with poll := .running partition offset event (matching entries event) }
      | _, _ => none
  | .handle =>
      match bus.poll with
      | .running partition offset event (entry :: rest) =>
          let (heard, handled) := bus.heard.await entry event
          let after := { bus with heard := heard, held := bus.held ++ handled.published }
          match handled.raised with
          | none => some { after with poll := .running partition offset event rest }
          | some .cancelled =>
              some { after with poll := .ended, lost := bus.lost ++ [(partition, offset)] }
          | some (.fault fault) => some (after.faulted partition offset fault)
      | _ => none
  | .flush =>
      match bus.poll, bus.held with
      | .running _ _ _ [], event :: rest =>
          let partition := topic.partition event
          let sent := bus.append partition (topic.encode event)
          some { sent with
            ledger := bus.ledger.recordProduced partition (bus.landing partition), held := rest }
      | _, _ => none
  | .flushFails fault =>
      match bus.poll, bus.held with
      | .running partition offset _ [], _ :: _ => some (bus.faulted partition offset fault)
      | _, _ => none
  | .commit =>
      match bus.poll, bus.held with
      | .running partition offset _ [], [] =>
          some { ({ bus with committed := bus.position }).recordCommitted partition offset with
            poll := .idle }
      | _, _ => none

/-- What fetching the front record of a partition does to the consumer. -/
def fetched (bus : KafkaBus World Event Fault Bytes Who) (partition : ℕ) (rest : List Bytes) :
    KafkaBus World Event Fault Bytes Who :=
  { bus with
    unread := Function.update bus.unread partition rest
    position := Function.update bus.position partition (bus.position partition + 1) }

/-- **What a step can do**, one case for each branch of the two tasks. -/
inductive Stepped (bus : KafkaBus World Event Fault Bytes Who) :
    Move Fault Who → KafkaBus World Event Fault Bytes Who → Prop
  | send {who event rest outcomes} (here : bus.publishers who = ⟨event :: rest, .idle, outcomes⟩) :
      Stepped bus (.send who)
        ((bus.append (topic.partition event) (topic.encode event)).setPublisher who
          ⟨rest, .sent (topic.partition event) (bus.landing (topic.partition event)), outcomes⟩)
  | sendFails {who fault event rest outcomes}
      (here : bus.publishers who = ⟨event :: rest, .idle, outcomes⟩) :
      Stepped bus (.sendFails who fault)
        (bus.setPublisher who ⟨rest, .idle, outcomes ++ [some (.fault fault)]⟩)
  | ack {who todo partition offset outcomes}
      (here : bus.publishers who = ⟨todo, .sent partition offset, outcomes⟩) :
      Stepped bus (.ack who)
        ({ bus with ledger := bus.ledger.recordProduced partition offset }.setPublisher who
          ⟨todo, .draining, outcomes⟩)
  | waits {who todo outcomes} (here : bus.publishers who = ⟨todo, .draining, outcomes⟩)
      (busy : bus.ledger.inFlight = true) :
      Stepped bus (.check who) (bus.setPublisher who ⟨todo, .waiting, outcomes⟩)
  | returns {who todo outcomes} (here : bus.publishers who = ⟨todo, .draining, outcomes⟩)
      (quiet : bus.ledger.inFlight = false) :
      Stepped bus (.check who)
        ({ bus with dispatchFault := none }.setPublisher who
          ⟨todo, .idle, outcomes ++ [bus.dispatchFault.map Raised.fault]⟩)
  | drops {partition value rest fault} (free : bus.poll = .idle)
      (front : bus.unread partition = value :: rest) (pending : bus.dispatchFault = some fault) :
      Stepped bus (.fetch partition)
        { (bus.fetched partition rest).recordCommitted partition (bus.position partition) with
          lost := bus.lost ++ [(partition, bus.position partition)] }
  | undecodable {partition value rest fault} (free : bus.poll = .idle)
      (front : bus.unread partition = value :: rest) (sound : bus.dispatchFault = none)
      (garbled : topic.decode value = .error fault) :
      Stepped bus (.fetch partition)
        ((bus.fetched partition rest).faulted partition (bus.position partition) fault)
  | begins {partition value rest event} (free : bus.poll = .idle)
      (front : bus.unread partition = value :: rest) (sound : bus.dispatchFault = none)
      (decoded : topic.decode value = .ok event) :
      Stepped bus (.fetch partition)
        { bus.fetched partition rest with
          poll := .running partition (bus.position partition) event (matching entries event) }
  | handles {partition offset event entry rest handled heard}
      (here : bus.poll = .running partition offset event (entry :: rest))
      (called : bus.heard.await entry event = (heard, handled)) (returned : handled.raised = none) :
      Stepped bus .handle
        { bus with
          heard := heard, held := bus.held ++ handled.published
          poll := .running partition offset event rest }
  | cancels {partition offset event entry rest handled heard}
      (here : bus.poll = .running partition offset event (entry :: rest))
      (called : bus.heard.await entry event = (heard, handled))
      (raised : handled.raised = some .cancelled) :
      Stepped bus .handle
        { bus with
          heard := heard, held := bus.held ++ handled.published
          poll := .ended, lost := bus.lost ++ [(partition, offset)] }
  | raises {partition offset event entry rest handled heard fault}
      (here : bus.poll = .running partition offset event (entry :: rest))
      (called : bus.heard.await entry event = (heard, handled))
      (raised : handled.raised = some (.fault fault)) :
      Stepped bus .handle
        ({ bus with heard := heard, held := bus.held ++ handled.published }.faulted
          partition offset fault)
  | flush {partition offset event published rest}
      (here : bus.poll = .running partition offset event []) (front : bus.held = published :: rest) :
      Stepped bus .flush
        { bus.append (topic.partition published) (topic.encode published) with
          ledger := bus.ledger.recordProduced (topic.partition published)
            (bus.landing (topic.partition published))
          held := rest }
  | flushFails {partition offset event published rest fault}
      (here : bus.poll = .running partition offset event []) (front : bus.held = published :: rest) :
      Stepped bus (.flushFails fault) (bus.faulted partition offset fault)
  | commit {partition offset event} (here : bus.poll = .running partition offset event [])
      (sent : bus.held = []) :
      Stepped bus .commit
        { ({ bus with committed := bus.position }).recordCommitted partition offset with
          poll := .idle }

variable {entries topic}

theorem step_cases {bus next : KafkaBus World Event Fault Bytes Who} {move : Move Fault Who}
    (moved : step entries topic bus move = some next) : Stepped entries topic bus move next := by
  cases move with
  | send who =>
      simp only [step] at moved
      split at moved
      · cases moved; exact .send ‹_›
      · cases moved
  | sendFails who fault =>
      simp only [step] at moved
      split at moved
      · cases moved; exact .sendFails ‹_›
      · cases moved
  | ack who =>
      simp only [step] at moved
      split at moved
      · cases moved; exact .ack ‹_›
      · cases moved
  | check who =>
      simp only [step] at moved
      split at moved
      · split at moved
        · cases moved; exact .waits ‹_› ‹_›
        · rename_i quiet
          cases moved; exact .returns ‹_› (Bool.eq_false_iff.mpr quiet)
      · cases moved
  | fetch partition =>
      simp only [step] at moved
      split at moved
      · split at moved
        · cases moved; exact .drops ‹_› ‹_› ‹_›
        · cases moved; exact .undecodable ‹_› ‹_› ‹_› ‹_›
        · cases moved; exact .begins ‹_› ‹_› ‹_› ‹_›
      · cases moved
  | handle =>
      simp only [step] at moved
      split at moved
      · split at moved
        · cases moved; exact .handles ‹_› rfl ‹_›
        · cases moved; exact .cancels ‹_› rfl ‹_›
        · cases moved; exact .raises ‹_› rfl ‹_›
      · cases moved
  | flush =>
      simp only [step] at moved
      split at moved
      · cases moved; exact .flush ‹_› ‹_›
      · cases moved
  | flushFails fault =>
      simp only [step] at moved
      split at moved
      · cases moved; exact .flushFails ‹_› ‹_›
      · cases moved
  | commit =>
      simp only [step] at moved
      split at moved
      · cases moved; exact .commit ‹_› ‹_›
      · cases moved

variable (entries topic)

/-- The tasks of one process. -/
def machine : Machine (KafkaBus World Event Fault Bytes Who) (Move Fault Who) :=
  ⟨step entries topic⟩

end KafkaBus

end Tickwright.Bus
