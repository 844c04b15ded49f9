/-
# Bus.Commits -- what a commit covers

`consumer.commit()` names no offsets: it commits, on every partition, the position
after the last record fetched.  A record whose dispatch raised, or that was
dropped while a fault was pending, was fetched too.  So the next commit of the
process, for whatever record, passes it, and no restart sees it again.

`neverPast_iff` is the exact extent: in a run the committed offsets stay behind
every lost record when, and only when, no record's dispatch runs to its end after
one was lost.
-/
import Tickwright.Bus.Kafka

namespace Tickwright.Bus

open Tickwright.Theory

set_option autoImplicit false

variable {World Event Fault Key Bytes Who : Type}

namespace KafkaBus

/-- A process that has just started: it consumes from what the group committed,
and nothing has happened yet. -/
structure Fresh (bus : KafkaBus World Event Fault Bytes Who) : Prop where
  resumes : bus.position = bus.committed
  idle : bus.poll = .idle
  intact : bus.lost = []

/-- No partition is committed past a lost record, so a restart redelivers each. -/
def NeverPast (bus : KafkaBus World Event Fault Bytes Who) : Prop :=
  ∀ partition offset, (partition, offset) ∈ bus.lost → bus.committed partition ≤ offset

/-- A record's dispatch runs to its end only while none was lost before it. -/
def EndsUnspoiled (bus : KafkaBus World Event Fault Bytes Who) (move : Move Fault Who) : Prop :=
  move = .commit → bus.lost = []

/-- What was committed was fetched, and so was every lost record and the one the
poll task is at, which is not committed yet. -/
structure Fetched (bus : KafkaBus World Event Fault Bytes Who) : Prop where
  committed : ∀ partition, bus.committed partition ≤ bus.position partition
  running : ∀ partition offset event rest, bus.poll = .running partition offset event rest →
    bus.committed partition ≤ offset ∧ offset < bus.position partition
  lost : ∀ partition offset, (partition, offset) ∈ bus.lost → offset < bus.position partition

/-- What a step other than a commit does to the record of what was lost: nothing,
or it adds one that no commit has covered. -/
inductive Loses (bus next : KafkaBus World Event Fault Bytes Who) : Prop
  | none (same : next.lost = bus.lost)
  | one (partition offset : ℕ) (adds : next.lost = bus.lost ++ [(partition, offset)])
      (uncovered : bus.committed partition ≤ offset)

theorem Fresh.fetched {bus : KafkaBus World Event Fault Bytes Who} (fresh : bus.Fresh) :
    bus.Fetched where
  committed partition := by rw [fresh.resumes]
  running _ _ _ _ at_ := by rw [fresh.idle] at at_; cases at_
  lost _ _ named := by rw [fresh.intact] at named; cases named

theorem Fresh.neverPast {bus : KafkaBus World Event Fault Bytes Who} (fresh : bus.Fresh) :
    bus.NeverPast := by
  intro partition offset named
  rw [fresh.intact] at named
  cases named

variable [DecidableEq Who] {entries : List (Subscription World Event Fault)}
  {topic : Topic Event Key Bytes Fault} {bus next : KafkaBus World Event Fault Bytes Who}
  {move : Move Fault Who}

/-- **One step fetches forward**, and only a commit moves what is committed. -/
theorem step_fetched (fetched : bus.Fetched) (moved : step entries topic bus move = some next) :
    next.Fetched ∧
      (move = .commit ∧ next.committed = bus.position ∧ next.lost = bus.lost ∨
        move ≠ .commit ∧ next.committed = bus.committed ∧ Loses bus next) := by
  obtain ⟨committed, running, lost⟩ := fetched
  have more (partition other offset : ℕ) (below : offset < bus.position other) :
      offset < Function.update bus.position partition (bus.position partition + 1) other := by
    by_cases same : other = partition
    · subst same
      rw [Function.update_self]
      omega
    · rwa [Function.update_of_ne same]
  have mostly (partition other : ℕ) :
      bus.committed other ≤
        Function.update bus.position partition (bus.position partition + 1) other := by
    by_cases same : other = partition
    · subst same
      rw [Function.update_self]
      exact Nat.le_succ_of_le (committed other)
    · rw [Function.update_of_ne same]
      exact committed other
  have front (partition : ℕ) : bus.position partition <
      Function.update bus.position partition (bus.position partition + 1) partition := by
    rw [Function.update_self]
    exact Nat.lt_succ_self _
  have adds {p o : ℕ} {position : ℕ → ℕ} (old : ∀ q n, (q, n) ∈ bus.lost → n < position q)
      (new : o < position p) (q n : ℕ) (named : (q, n) ∈ bus.lost ++ [(p, o)]) : n < position q := by
    rcases List.mem_append.mp named with before | now
    · exact old q n before
    · cases List.mem_singleton.mp now
      exact new
  cases step_cases moved with
  | send here => exact ⟨⟨committed, running, lost⟩, .inr ⟨by simp, rfl, .none rfl⟩⟩
  | sendFails here => exact ⟨⟨committed, running, lost⟩, .inr ⟨by simp, rfl, .none rfl⟩⟩
  | ack here => exact ⟨⟨committed, running, lost⟩, .inr ⟨by simp, rfl, .none rfl⟩⟩
  | waits here busy => exact ⟨⟨committed, running, lost⟩, .inr ⟨by simp, rfl, .none rfl⟩⟩
  | returns here quiet => exact ⟨⟨committed, running, lost⟩, .inr ⟨by simp, rfl, .none rfl⟩⟩
  | flush here sent => exact ⟨⟨committed, running, lost⟩, .inr ⟨by simp, rfl, .none rfl⟩⟩
  | @drops partition value rest fault free unread pending =>
      refine ⟨⟨mostly partition, fun p o e r at_ => ?_, ?_⟩,
        .inr ⟨by simp, rfl, .one _ _ rfl (committed partition)⟩⟩
      · cases free.symm.trans at_
      · exact adds (fun q n named => more partition q n (lost q n named)) (front partition)
  | @undecodable partition value rest fault free unread sound garbled =>
      refine ⟨⟨mostly partition, fun p o e r at_ => ?_, ?_⟩,
        .inr ⟨by simp, rfl, .one _ _ rfl (committed partition)⟩⟩
      · cases at_
      · exact adds (fun q n named => more partition q n (lost q n named)) (front partition)
  | @begins partition value rest event free unread sound decoded =>
      refine ⟨⟨mostly partition, fun p o e r at_ => ?_,
        fun q n named => more partition q n (lost q n named)⟩, .inr ⟨by simp, rfl, .none rfl⟩⟩
      cases at_
      exact ⟨committed partition, front partition⟩
  | @handles partition offset event entry rest handled heard here called returned =>
      refine ⟨⟨committed, fun p o e r at_ => ?_, lost⟩, .inr ⟨by simp, rfl, .none rfl⟩⟩
      cases at_
      exact running _ _ _ _ here
  | @cancels partition offset event entry rest handled heard here called raised =>
      refine ⟨⟨committed, fun p o e r at_ => ?_, ?_⟩,
        .inr ⟨by simp, rfl, .one _ _ rfl (running _ _ _ _ here).1⟩⟩
      · cases at_
      · exact adds lost (running _ _ _ _ here).2
  | @raises partition offset event entry rest handled heard fault here called raised =>
      refine ⟨⟨committed, fun p o e r at_ => ?_, ?_⟩,
        .inr ⟨by simp, rfl, .one _ _ rfl (running _ _ _ _ here).1⟩⟩
      · cases at_
      · exact adds lost (running _ _ _ _ here).2
  | @flushFails partition offset event published rest fault here sent =>
      refine ⟨⟨committed, fun p o e r at_ => ?_, ?_⟩,
        .inr ⟨by simp, rfl, .one _ _ rfl (running _ _ _ _ here).1⟩⟩
      · cases at_
      · exact adds lost (running _ _ _ _ here).2
  | @commit partition offset event here sent =>
      refine ⟨⟨fun _ => le_refl _, fun p o e r at_ => ?_, lost⟩, .inl ⟨rfl, rfl, rfl⟩⟩
      cases at_

/-- **A step that is not a commit passes nothing.** -/
theorem step_neverPast (fetched : bus.Fetched) (never : bus.NeverPast)
    (careful : EndsUnspoiled bus move) (moved : step entries topic bus move = some next) :
    next.NeverPast := by
  intro partition offset named
  rcases (step_fetched fetched moved).2 with ⟨commits, _, same⟩ | ⟨_, held, loses⟩
  · rw [same, careful commits] at named
    cases named
  · rw [held]
    cases loses with
    | none same => exact never _ _ (same ▸ named)
    | one p o adds uncovered =>
        rw [adds] at named
        rcases List.mem_append.mp named with before | now
        · exact never _ _ before
        · cases List.mem_singleton.mp now
          exact uncovered

/-- **A commit passes every lost record.** -/
theorem commit_passes (fetched : bus.Fetched) {partition offset : ℕ}
    (lost : (partition, offset) ∈ bus.lost) (moved : step entries topic bus .commit = some next) :
    ¬ next.NeverPast := by
  intro never
  rcases (step_fetched fetched moved).2 with ⟨_, covers, same⟩ | ⟨other, _, _⟩
  · have behind := never partition offset (same ▸ lost)
    rw [covers] at behind
    exact absurd (fetched.lost _ _ lost) (not_lt.mpr behind)
  · exact other rfl

variable (entries topic) in
/-- **The committed offsets of a run stay behind every record it lost exactly when
no dispatch runs to its end after a loss.** -/
theorem neverPast_iff {start final : KafkaBus World Event Fault Bytes Who} (fresh : start.Fresh)
    {moves : List (Move Fault Who)}
    (ran : (machine entries topic).run start moves = some final) :
    (∀ n bus, (machine entries topic).run start (moves.take n) = some bus → bus.NeverPast) ↔
      (machine entries topic).Meets EndsUnspoiled start moves := by
  have begun := fresh.fetched
  have clear := fresh.neverPast
  clear fresh
  induction moves generalizing start with
  | nil =>
      refine ⟨fun _ => trivial, fun _ n bus at_ => ?_⟩
      rw [List.take_nil] at at_
      cases at_
      exact clear
  | cons move rest ih =>
      obtain ⟨next, moved, tail⟩ := Machine.run_cons_eq_some.mp ran
      have step_ := step_fetched begun moved
      constructor
      · intro always
        have careful : EndsUnspoiled start move := by
          rintro rfl
          by_contra spoiled
          obtain ⟨⟨partition, offset⟩, lost⟩ := List.exists_mem_of_ne_nil _ spoiled
          have commits : step entries topic start .commit = some next := moved
          refine commit_passes begun lost commits (always 1 next ?_)
          exact Machine.run_cons_eq_some.mpr ⟨next, moved, rfl⟩
        refine ⟨careful, fun after there => ?_⟩
        cases moved.symm.trans there
        refine (ih tail step_.1 (step_neverPast begun clear careful moved)).mp fun n bus at_ => ?_
        exact always (n + 1) bus (Machine.run_cons_eq_some.mpr ⟨next, moved, at_⟩)
      · rintro ⟨careful, later⟩ n bus at_
        have onward := (ih tail step_.1 (step_neverPast begun clear careful moved)).mpr
          (later next moved)
        cases n with
        | zero => cases at_; exact clear
        | succ n =>
            obtain ⟨middle, there, tail⟩ := Machine.run_cons_eq_some.mp at_
            cases moved.symm.trans there
            exact onward n bus tail

end KafkaBus

/-! ## One faulted tick, then one that is handled -/

namespace Sample

open KafkaBus

/-- Ticks by their number, all of one symbol. -/
def ticks : Topic ℕ String ℕ String where
  encode tick := tick
  decode value := .ok value
  partitionKey _ := "BTC"
  partitionOf _ := 0

/-- A handler that raises on tick 0. -/
def chokes : Subscription Unit ℕ String where
  eventType _ := true
  handler _ tick := { world := (), raised := if tick = 0 then some (.fault "choked") else none }

/-- A new process and the ticks its one publisher is about to publish. -/
def opening (script : List ℕ) : KafkaBus Unit ℕ String ℕ Unit where
  unread _ := []
  position _ := 0
  committed _ := 0
  ledger := {}
  dispatchFault := none
  held := []
  poll := .idle
  publishers _ := { todo := script }
  heard := { world := () }
  lost := []

/-- Tick 0 is published, and its publish raises what the handler raised. -/
def firstTick : List (Move String Unit) := [.send (), .ack (), .fetch 0, .handle, .check ()]

/-- Tick 1 is published, handled and committed. -/
def secondTick : List (Move String Unit) := [.send (), .ack (), .fetch 0, .handle, .commit]

/-- Until tick 1 is committed, the faulted tick is ahead of what is. -/
theorem firstTick_neverPast :
    ∃ bus, (machine [chokes] ticks).run (opening [0, 1]) firstTick = some bus ∧
      (0, 0) ∈ bus.lost ∧ bus.NeverPast := by
  have fresh : (opening [0, 1]).Fresh := ⟨rfl, rfl, rfl⟩
  have meets : (machine [chokes] ticks).Meets EndsUnspoiled (opening [0, 1]) firstTick := by
    refine ⟨nofun, fun _ _ => ⟨nofun, fun _ _ => ⟨nofun, fun _ _ => ⟨nofun, fun _ _ => ⟨nofun, ?_⟩⟩⟩⟩⟩
    exact fun _ _ => trivial
  exact ⟨_, rfl, by decide, (neverPast_iff [chokes] ticks fresh rfl).mpr meets 5 _ rfl⟩

/-- **The commit of tick 1 passes tick 0**, which no restart redelivers. -/
theorem secondTick_passes :
    ∃ bus, (machine [chokes] ticks).run (opening [0, 1]) (firstTick ++ secondTick) = some bus ∧
      (0, 0) ∈ bus.lost ∧ bus.committed 0 = 2 ∧ ¬ bus.NeverPast := by
  refine ⟨_, rfl, by decide, rfl, fun never => ?_⟩
  exact absurd (never 0 0 (by decide)) (by decide)

end Sample

end Tickwright.Bus
