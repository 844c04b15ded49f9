/-
# Feed.Replay -- a recorded file replayed on a virtual clock

`ReplayFeed.run` reads a file row by row.  For each row it advances the clock to
the row's instant, yields once, and publishes the mark the trade implies and then
the trade.  The clock is shared: a handler that sleeps while a row is handled
moves it on, and `advanceTo` refuses an instant behind it.

The feed is suspended at three awaits a row.  Between its turns anything else may
run: it sleeps, parks on the clock, or gives up a wait, and a handler may raise
through the publish that called it.

* `replay_delivers`: in every run in which nothing sleeps the clock past the next
  row's instant, the feed raises nothing of its own, publishes the recording in
  order, and all of it by the end.
* `overslept_raises` is the other direction: past the next row's instant, the feed
  raises where it would have read that row.
* `recording_seqs`: the trades of one symbol in a recording carry 0, 1, 2, ...
-/
import Mathlib.Data.List.Range
import Tickwright.Feed.Ticks
import Tickwright.Theory.Dict
import Tickwright.Theory.Machine

namespace Tickwright.Feed

open Tickwright.Domain (Nanos Symbol Decimal)
open Tickwright.Theory

set_option autoImplicit false

/-! ## The virtual clock -/

/-- A parked `sleep_until`; `done` once its sleeper was cancelled. -/
structure Waiter where
  target : Nanos
  done : Bool := false
deriving DecidableEq

/-- `ManualClock`: virtual time, and the waiters it has not released. -/
structure ManualClock where
  nowNs : Nanos := 0
  waiters : List Waiter := []
deriving DecidableEq

/-- What `advance_to` raises. -/
inductive ClockError
  | backward (tsNs nowNs : Nanos)
deriving DecidableEq

def ClockError.message : ClockError → String
  | .backward tsNs nowNs =>
      "cannot move ManualClock backward: " ++ toString tsNs ++ " < current " ++ toString nowNs

namespace ManualClock

/-- `sleep`: the wait is over at once, and time has moved by it. -/
def sleep (clock : ManualClock) (ns : Nanos) : ManualClock :=
  { clock with nowNs := clock.nowNs + ns }

/-- `sleep_until`: park, unless the target is already reached. -/
def sleepUntil (clock : ManualClock) (tsNs : Nanos) : ManualClock :=
  if tsNs ≤ clock.nowNs then clock
  else { clock with waiters := clock.waiters ++ [{ target := tsNs }] }

/-- A parked sleeper is cancelled. -/
def cancel (clock : ManualClock) (n : ℕ) : ManualClock :=
  { clock with waiters := clock.waiters.modify n fun waiter => { waiter with done := true } }

/-- `_release_matured_waiters`: what stays parked is live and still ahead. -/
def releaseMaturedWaiters (clock : ManualClock) : ManualClock :=
  { clock with
    waiters := clock.waiters.filter fun waiter => !waiter.done && clock.nowNs < waiter.target }

/-- `advance_to`: time never moves backward. -/
def advanceTo (clock : ManualClock) (tsNs : Nanos) : Except ClockError ManualClock :=
  if tsNs < clock.nowNs then .error (.backward tsNs clock.nowNs)
  else .ok ({ clock with nowNs := tsNs }).releaseMaturedWaiters

end ManualClock

/-! ## The feed -/

/-- One readable line of the file. -/
structure TickRow where
  symbol : Symbol
  price : Decimal
  size : Decimal
  aggressorSide : AggressorSide
  tradeId : String
  tsEvent : Nanos
deriving DecidableEq

/-- The trade a row records. -/
def TickRow.tick (row : TickRow) (tsInit : Nanos) (seq : ℕ) : MarketTick where
  tsEvent := row.tsEvent
  tsInit := tsInit
  symbol := row.symbol
  price := row.price
  size := row.size
  aggressorSide := row.aggressorSide
  tradeId := row.tradeId
  seq := seq

/-- `_to_mark`: the last-trade proxy, with the trade's own instants and seq. -/
def toMark (tick : MarketTick) : MarkTick where
  tsEvent := tick.tsEvent
  tsInit := tick.tsInit
  symbol := tick.symbol
  price := tick.price
  seq := some tick.seq

/-- Where `run` stands: before its first row, at the yield, inside one of the two
publishes of a row, or over. -/
inductive Stage
  | idle
  | yielded (tick : MarketTick)
  | marking (tick : MarketTick)
  | trading (tick : MarketTick)
  | ended
  | raised (error : ClockError)
  | broken
deriving DecidableEq

/-- The feed and its clock, with what it has published. -/
structure Replay where
  clock : ManualClock
  rows : List TickRow
  seqBySymbol : Dict Symbol ℕ := Dict.empty
  stage : Stage := .idle
  published : List MarketData := []

namespace Replay

/-- `_to_tick`: advance the clock to the row, then number the row. -/
def toTick (replay : Replay) (row : TickRow) :
    Except ClockError (MarketTick × ManualClock × Dict Symbol ℕ) :=
  match replay.clock.advanceTo row.tsEvent with
  | .error error => .error error
  | .ok clock =>
      let seq := (replay.seqBySymbol.get row.symbol).getD 0
      .ok (row.tick clock.nowNs seq, clock, replay.seqBySymbol.set row.symbol (seq + 1))

/-- The head of the loop, up to the yield. -/
def nextRow (replay : Replay) : Replay :=
  match replay.rows with
  | [] => { replay with stage := .ended }
  | row :: rest =>
      match replay.toTick row with
      | .error error => { replay with rows := rest, stage := .raised error }
      | .ok (tick, clock, seqBySymbol) =>
          { replay with
            clock := clock, rows := rest, seqBySymbol := seqBySymbol, stage := .yielded tick }

/-- `run`, from the await it stands at to its next one. -/
def turn (replay : Replay) : Option Replay :=
  match replay.stage with
  | .idle | .trading _ => some replay.nextRow
  | .yielded tick =>
      some { replay with
        published := replay.published ++ [.mark (toMark tick)], stage := .marking tick }
  | .marking tick =>
      some { replay with published := replay.published ++ [.tick tick], stage := .trading tick }
  | .ended | .raised _ | .broken => none

end Replay

/-- One move of a replay: the feed's turn, or something that runs while it is
suspended. -/
inductive ReplayMove
  | turn
  | sleep (ns : Nanos)
  | park (tsNs : Nanos)
  | cancel (n : ℕ)
  | fault

/-- **The feed among its subscribers and the parked loops.** -/
def replayFeed : Machine Replay ReplayMove where
  step replay move :=
    match move with
    | .turn => replay.turn
    | .sleep ns => some { replay with clock := replay.clock.sleep ns }
    | .park tsNs => some { replay with clock := replay.clock.sleepUntil tsNs }
    | .cancel n => some { replay with clock := replay.clock.cancel n }
    | .fault =>
        match replay.stage with
        | .marking _ | .trading _ => some { replay with stage := .broken }
        | _ => none

/-! ## What a file should play as -/

/-- The two events of one row, numbered by the rows of its symbol before it. -/
def rowEvents (earlier : List TickRow) (row : TickRow) : List MarketData :=
  let tick := row.tick row.tsEvent (earlier.countP fun other => other.symbol = row.symbol)
  [.mark (toMark tick), .tick tick]

/-- The recording: every row's mark and then its trade, in file order. -/
def recordingAfter (earlier : List TickRow) : List TickRow → List MarketData
  | [] => []
  | row :: rest => rowEvents earlier row ++ recordingAfter (earlier ++ [row]) rest

def recording (file : List TickRow) : List MarketData := recordingAfter [] file

theorem recordingAfter_append (earlier first second : List TickRow) :
    recordingAfter earlier (first ++ second) =
      recordingAfter earlier first ++ recordingAfter (earlier ++ first) second := by
  induction first generalizing earlier with
  | nil => simp [recordingAfter]
  | cons row rest ih => simp [recordingAfter, ih]

theorem recording_append (first second : List TickRow) :
    recording (first ++ second) = recording first ++ recordingAfter first second :=
  recordingAfter_append [] first second

theorem recording_concat (played : List TickRow) (row : TickRow) :
    recording (played ++ [row]) = recording played ++ rowEvents played row := by
  simp [recording_append, recordingAfter]

/-- The seq of a trade of the symbol. -/
def tradeSeq (symbol : Symbol) : MarketData → Option ℕ
  | .tick tick => if tick.symbol = symbol then some tick.seq else none
  | .mark _ => none

/-- **The trades of one symbol are numbered 0, 1, 2, and so on.** -/
theorem recording_seqs (symbol : Symbol) (file : List TickRow) :
    (recording file).filterMap (tradeSeq symbol) =
      List.range (file.countP fun row => row.symbol = symbol) := by
  induction file using List.reverseRecOn with
  | nil => rfl
  | append_singleton played row ih =>
      rw [recording_concat, List.filterMap_append, ih, List.countP_append]
      by_cases own : row.symbol = symbol
      · subst own
        simp [rowEvents, tradeSeq, TickRow.tick, List.filterMap_cons, List.range_succ]
      · simp [rowEvents, tradeSeq, TickRow.tick, List.filterMap_cons, own]

/-! ## What every move keeps -/

/-- What is still owed of the rows read so far, at the await the feed stands at. -/
def Owes (owed : List MarketData) : Stage → Prop
  | .yielded tick => owed = [.mark (toMark tick), .tick tick]
  | .marking tick => owed = [.tick tick]
  | .idle | .trading _ | .ended | .raised _ => owed = []
  | .broken => True

/-- The feed has read `played`, numbered it, and published all of it but what it
owes. -/
structure Played (file : List TickRow) (replay : Replay) (played : List TickRow) : Prop where
  split : file = played ++ replay.rows
  numbered : ∀ symbol,
    (replay.seqBySymbol.get symbol).getD 0 = played.countP fun row => row.symbol = symbol
  owes : ∃ owed, replay.published ++ owed = recording played ∧ Owes owed replay.stage
  atEnd : replay.stage = .ended → replay.rows = []

/-- The next row is not behind the clock. -/
def OnTime (replay : Replay) : Prop :=
  ∀ row, replay.rows.head? = some row → replay.clock.nowNs ≤ row.tsEvent

/-- What a replay promises: it raises nothing, what it published is a first part
of the recording, and the whole of it once it has ended, as it will in some number
of turns unless a handler raised. -/
structure Delivers (file : List TickRow) (replay : Replay) : Prop where
  raisedNothing : ∀ error, replay.stage ≠ .raised error
  inOrder : replay.published <+: recording file
  complete : replay.stage = .ended → replay.published = recording file
  ends : replay.stage ≠ .broken →
    ∃ n after, replayFeed.run replay (List.replicate n .turn) = some after ∧
      after.stage = .ended ∧ after.published = recording file

/-- A sleep that leaves the clock at or before the next row's instant. -/
def KeepsTime (replay : Replay) : ReplayMove → Prop
  | .sleep ns => ∀ row, replay.rows.head? = some row → replay.clock.nowNs + ns ≤ row.tsEvent
  | .turn | .park _ | .cancel _ | .fault => True

/-- A feed before its first row. -/
def Replay.start (file : List TickRow) (startNs : Nanos) : Replay where
  clock := { nowNs := startNs }
  rows := file

variable {file played : List TickRow} {replay after : Replay}

theorem played_start (file : List TickRow) (startNs : Nanos) :
    Played file (Replay.start file startNs) [] where
  split := rfl
  numbered _ := rfl
  owes := ⟨[], rfl, rfl⟩
  atEnd ended := by cases ended

theorem sleepUntil_nowNs (clock : ManualClock) (tsNs : Nanos) :
    (clock.sleepUntil tsNs).nowNs = clock.nowNs := by
  simp only [ManualClock.sleepUntil]
  split <;> rfl

/-- What a read of the next row does, when the clock lets it. -/
theorem nextRow_ok {row : TickRow} {rest : List TickRow} (front : replay.rows = row :: rest)
    (due : replay.clock.nowNs ≤ row.tsEvent) :
    let seq := (replay.seqBySymbol.get row.symbol).getD 0
    replay.nextRow = { replay with
      clock := ({ replay.clock with nowNs := row.tsEvent }).releaseMaturedWaiters
      rows := rest
      seqBySymbol := replay.seqBySymbol.set row.symbol (seq + 1)
      stage := .yielded (row.tick row.tsEvent seq) } := by
  have accepted : ¬row.tsEvent < replay.clock.nowNs := by simpa using due
  simp only [Replay.nextRow, front, Replay.toTick, ManualClock.advanceTo, if_neg accepted]
  rfl

theorem nextRow_late {row : TickRow} {rest : List TickRow} (front : replay.rows = row :: rest)
    (late : row.tsEvent < replay.clock.nowNs) :
    replay.nextRow.stage = .raised (.backward row.tsEvent replay.clock.nowNs) := by
  simp only [Replay.nextRow, front, Replay.toTick, ManualClock.advanceTo, if_pos late]

/-- Between two rows, a turn reads the next one and owes its two events. -/
theorem played_nextRow (kept : Played file replay played) (due : OnTime replay)
    (whole : replay.published = recording played) :
    ∃ played, Played file replay.nextRow played := by
  cases front : replay.rows with
  | nil =>
      refine ⟨played, ?_⟩
      have ended : replay.nextRow = { replay with stage := .ended } := by
        simp only [Replay.nextRow, front]
      rw [ended]
      exact ⟨kept.split, kept.numbered, ⟨[], by simpa using whole, rfl⟩, fun _ => front⟩
  | cons row rest =>
      have read := nextRow_ok front (due row (by rw [front]; rfl))
      refine ⟨played ++ [row], ?_⟩
      rw [read]
      refine ⟨by simp [kept.split, front], fun symbol => ?_, ⟨_, ?_, rfl⟩, by simp⟩
      · have before := kept.numbered symbol
        simp only [Dict.get_set, List.countP_append]
        by_cases own : row.symbol = symbol
        · subst own
          simp [before]
        · simp [own, before]
      · rw [recording_concat, whole, kept.numbered row.symbol]
        rfl

theorem onTime_nextRow (sorted : file.Pairwise fun row later => row.tsEvent ≤ later.tsEvent)
    (kept : Played file replay played) (due : OnTime replay) : OnTime replay.nextRow := by
  cases front : replay.rows with
  | nil =>
      intro row next
      simp [Replay.nextRow, front] at next
  | cons row rest =>
      rw [nextRow_ok front (due row (by rw [front]; rfl))]
      intro later next
      rw [kept.split, front] at sorted
      have tail := (List.pairwise_append.mp sorted).2.1
      exact (List.pairwise_cons.mp tail).1 later (List.mem_of_mem_head? next)

theorem raisedNothing_nextRow (due : OnTime replay) (error : ClockError) :
    replay.nextRow.stage ≠ .raised error := by
  cases front : replay.rows with
  | nil => simp [Replay.nextRow, front]
  | cons row rest =>
      rw [nextRow_ok front (due row (by rw [front]; rfl))]
      simp

/-- What one move does: a turn between two rows, a turn inside one, a move of the
clock or its waiters, or a fault. -/
theorem replay_cases {move : ReplayMove} (moved : replayFeed.step replay move = some after) :
    ((replay.stage = .idle ∨ ∃ tick, replay.stage = .trading tick) ∧ after = replay.nextRow) ∨
    (∃ tick, replay.stage = .yielded tick ∧ after = { replay with
      published := replay.published ++ [.mark (toMark tick)], stage := .marking tick }) ∨
    (∃ tick, replay.stage = .marking tick ∧ after = { replay with
      published := replay.published ++ [.tick tick], stage := .trading tick }) ∨
    (∃ clock, after = { replay with clock := clock } ∧
      ((∃ ns, move = .sleep ns ∧ clock.nowNs = replay.clock.nowNs + ns) ∨
        clock.nowNs = replay.clock.nowNs)) ∨
    after = { replay with stage := .broken } := by
  cases move with
  | turn =>
      simp only [replayFeed, Replay.turn] at moved
      cases stands : replay.stage with
      | idle =>
          simp only [stands, Option.some.injEq] at moved
          exact .inl ⟨.inl rfl, moved.symm⟩
      | trading tick =>
          simp only [stands, Option.some.injEq] at moved
          exact .inl ⟨.inr ⟨tick, rfl⟩, moved.symm⟩
      | yielded tick =>
          simp only [stands, Option.some.injEq] at moved
          exact .inr (.inl ⟨tick, rfl, moved.symm⟩)
      | marking tick =>
          simp only [stands, Option.some.injEq] at moved
          exact .inr (.inr (.inl ⟨tick, rfl, moved.symm⟩))
      | ended | raised _ | broken => simp [stands] at moved
  | sleep ns =>
      simp only [replayFeed, Option.some.injEq] at moved
      exact .inr (.inr (.inr (.inl ⟨_, moved.symm, .inl ⟨ns, rfl, rfl⟩⟩)))
  | park tsNs =>
      simp only [replayFeed, Option.some.injEq] at moved
      exact .inr (.inr (.inr (.inl ⟨_, moved.symm, .inr (sleepUntil_nowNs _ _)⟩)))
  | cancel n =>
      simp only [replayFeed, Option.some.injEq] at moved
      exact .inr (.inr (.inr (.inl ⟨_, moved.symm, .inr rfl⟩)))
  | fault =>
      cases stands : replay.stage <;> simp [replayFeed, stands] at moved
      all_goals exact .inr (.inr (.inr (.inr moved.symm)))

/-- What holds of a replay that has kept time so far. -/
structure Timely (file : List TickRow) (replay : Replay) : Prop where
  played : ∃ played, Played file replay played
  onTime : OnTime replay
  raisedNothing : ∀ error, replay.stage ≠ .raised error

/-- **Every move that keeps time keeps the replay on its recording.** -/
theorem timely_step {move : ReplayMove}
    (sorted : file.Pairwise fun row later => row.tsEvent ≤ later.tsEvent)
    (timely : Timely file replay) (safe : KeepsTime replay move)
    (moved : replayFeed.step replay move = some after) : Timely file after := by
  obtain ⟨⟨played, kept⟩, due, fine⟩ := timely
  obtain ⟨owed, whole, owes⟩ := kept.owes
  obtain ⟨between, rfl⟩ | ⟨tick, stands, rfl⟩ | ⟨tick, stands, rfl⟩ | ⟨clock, rfl, moves⟩ | rfl :=
    replay_cases moved
  · have nothing : owed = [] := by
      rcases between with stands | ⟨tick, stands⟩ <;> simpa [stands, Owes] using owes
    rw [nothing, List.append_nil] at whole
    exact ⟨played_nextRow kept due whole, onTime_nextRow sorted kept due,
      raisedNothing_nextRow due⟩
  · have both : owed = [.mark (toMark tick), .tick tick] := by simpa [stands, Owes] using owes
    refine ⟨⟨played, kept.split, kept.numbered, ⟨[.tick tick], ?_, rfl⟩, by simp⟩, due, by simp⟩
    rw [← whole, both, List.append_assoc]
    rfl
  · have last : owed = [.tick tick] := by simpa [stands, Owes] using owes
    refine ⟨⟨played, kept.split, kept.numbered, ⟨[], ?_, rfl⟩, by simp⟩, due, by simp⟩
    rw [← whole, last, List.append_nil]
  · refine ⟨⟨played, kept.split, kept.numbered, kept.owes, kept.atEnd⟩, fun row next => ?_, fine⟩
    rcases moves with ⟨ns, rfl, slept⟩ | still
    · exact slept ▸ safe row next
    · exact still ▸ due row next
  · exact ⟨⟨played, kept.split, kept.numbered, ⟨owed, whole, trivial⟩, by simp⟩, due, by simp⟩

theorem timely_start {startNs : Nanos}
    (early : ∀ row, file.head? = some row → startNs ≤ row.tsEvent) :
    Timely file (Replay.start file startNs) :=
  ⟨⟨[], played_start file startNs⟩, early, by simp [Replay.start]⟩

/-- The turns a feed that keeps time has left. -/
def Replay.turnsLeft (replay : Replay) : ℕ :=
  match replay.stage with
  | .yielded _ => 3 * replay.rows.length + 3
  | .marking _ => 3 * replay.rows.length + 2
  | .idle | .trading _ => 3 * replay.rows.length + 1
  | .ended | .raised _ | .broken => 0

theorem turnsLeft_nextRow (due : OnTime replay) :
    replay.nextRow.turnsLeft < 3 * replay.rows.length + 1 ∧ replay.nextRow.stage ≠ .broken := by
  cases front : replay.rows with
  | nil => simp [Replay.nextRow, front, Replay.turnsLeft]
  | cons row rest =>
      rw [nextRow_ok front (due row (by rw [front]; rfl))]
      simp only [Replay.turnsLeft, List.length_cons]
      exact ⟨by omega, by simp⟩

theorem Timely.inOrder (timely : Timely file replay) : replay.published <+: recording file := by
  obtain ⟨played, kept⟩ := timely.played
  obtain ⟨owed, whole, -⟩ := kept.owes
  rw [kept.split, recording_append, ← whole, List.append_assoc]
  exact List.prefix_append _ _

theorem Timely.complete (timely : Timely file replay) (ended : replay.stage = .ended) :
    replay.published = recording file := by
  obtain ⟨played, kept⟩ := timely.played
  obtain ⟨owed, whole, owes⟩ := kept.owes
  have split := kept.split
  have nothing : owed = [] := by simpa [ended, Owes] using owes
  rw [kept.atEnd ended, List.append_nil] at split
  rw [split, ← whole, nothing, List.append_nil]

/-- **The replay ends**: left to itself, a feed that has kept time and that no
handler broke reads every row left and ends. -/
theorem Timely.ends (sorted : file.Pairwise fun row later => row.tsEvent ≤ later.tsEvent)
    (timely : Timely file replay) (whole : replay.stage ≠ .broken) :
    ∃ n after, replayFeed.run replay (List.replicate n .turn) = some after ∧
      after.stage = .ended ∧ after.published = recording file := by
  generalize size : replay.turnsLeft = left
  induction left using Nat.strong_induction_on generalizing replay with
  | _ left ih =>
      have onward : ∀ {next : Replay}, replay.turn = some next → next.turnsLeft < left →
          next.stage ≠ .broken → ∃ n after,
            replayFeed.run replay (List.replicate n .turn) = some after ∧
              after.stage = .ended ∧ after.published = recording file := by
        intro next turned fewer unbroken
        have kept : Timely file next :=
          timely_step sorted timely (show KeepsTime replay .turn from trivial) turned
        obtain ⟨n, after, ran, ended⟩ := ih next.turnsLeft fewer kept unbroken rfl
        exact ⟨n + 1, after, Machine.run_cons_eq_some.mpr ⟨next, turned, ran⟩, ended⟩
      cases stands : replay.stage with
      | idle | trading tick =>
          obtain ⟨fewer, unbroken⟩ := turnsLeft_nextRow timely.onTime
          simp only [Replay.turnsLeft, stands] at size
          exact onward (by simp [Replay.turn, stands]) (by omega) unbroken
      | yielded tick | marking tick =>
          simp only [Replay.turnsLeft, stands] at size
          refine onward (by simp [Replay.turn, stands]; rfl) ?_ (by simp)
          simp only [Replay.turnsLeft]
          omega
      | ended => exact ⟨0, replay, rfl, stands, timely.complete stands⟩
      | raised error => exact absurd stands (timely.raisedNothing error)
      | broken => exact absurd stands whole

/-- **Every row is delivered.**  Of a file whose instants never decrease, from a
clock at or before the first row, in every run in which no sleep carries the clock
past the next row. -/
theorem replay_delivers {startNs : Nanos} {moves : List ReplayMove}
    (sorted : file.Pairwise fun row later => row.tsEvent ≤ later.tsEvent)
    (early : ∀ row, file.head? = some row → startNs ≤ row.tsEvent)
    (steady : replayFeed.Meets KeepsTime (Replay.start file startNs) moves)
    (ran : replayFeed.run (Replay.start file startNs) moves = some replay) :
    Delivers file replay := by
  have timely := Machine.run_induct_of KeepsTime (Timely file) (timely_step sorted)
    (timely_start early) steady ran
  exact ⟨timely.raisedNothing, timely.inOrder, timely.complete, timely.ends sorted⟩

/-! ## What a sleep past the next row does -/

/-- **Past the next row's instant the feed raises** where it would have read it. -/
theorem overslept_raises {row : TickRow} (next : replay.rows.head? = some row)
    (late : row.tsEvent < replay.clock.nowNs)
    (reading : replay.stage = .idle ∨ ∃ tick, replay.stage = .yielded tick ∨
      replay.stage = .marking tick ∨ replay.stage = .trading tick) :
    ∃ n after, replayFeed.run replay (List.replicate n .turn) = some after ∧
      after.stage = .raised (.backward row.tsEvent replay.clock.nowNs) := by
  obtain ⟨rest, front⟩ : ∃ rest, replay.rows = row :: rest := by
    cases rows : replay.rows with
    | nil => simp [rows] at next
    | cons head rest => exact ⟨rest, by simpa [rows] using next⟩
  rcases reading with stands | ⟨tick, stands | stands | stands⟩
  · exact ⟨1, replay.nextRow, by simp [Machine.run, replayFeed, Replay.turn, stands],
      nextRow_late front late⟩
  · refine ⟨3, _, by simp [List.replicate, Machine.run, replayFeed, Replay.turn, stands]; rfl, ?_⟩
    exact nextRow_late front late
  · refine ⟨2, _, by simp [List.replicate, Machine.run, replayFeed, Replay.turn, stands]; rfl, ?_⟩
    exact nextRow_late front late
  · exact ⟨1, replay.nextRow, by simp [Machine.run, replayFeed, Replay.turn, stands],
      nextRow_late front late⟩

/-! ## Sample replays -/

namespace Sample

def rowAt (instant : Nanos) : TickRow := ⟨"BTC", 100, 1, .buy, "t", instant⟩

/-- Two rows, two nanoseconds apart. -/
def pair : List TickRow := [rowAt 10, rowAt 12]

/-- A handler of the first trade sleeps one nanosecond, and every row is delivered. -/
def kept : List ReplayMove :=
  [.park 11, .turn, .turn, .turn, .sleep 1, .turn, .turn, .turn, .turn]

/-- The same handler sleeps five. -/
def overslept : List ReplayMove := [.turn, .turn, .turn, .sleep 5, .turn]

def keepsTime (replay : Replay) : ReplayMove → Bool
  | .sleep ns => replay.rows.head?.all fun row => replay.clock.nowNs + ns ≤ row.tsEvent
  | .turn | .park _ | .cancel _ | .fault => true

theorem keepsTime_sound (replay : Replay) (move : ReplayMove)
    (timely : keepsTime replay move = true) : KeepsTime replay move := by
  cases move with
  | sleep ns =>
      intro row next
      simpa [keepsTime, next] using timely
  | _ => trivial

theorem replay_delivers_pair : ∃ replay,
    replayFeed.run (Replay.start pair 0) kept = some replay ∧ replay.stage = .ended ∧
      replay.published = recording pair := by
  have ended : (replayFeed.run (Replay.start pair 0) kept).map Replay.stage = some .ended := by
    decide +kernel
  obtain ⟨replay, ran, stands⟩ := Option.map_eq_some_iff.mp ended
  have steady := Machine.meets_of_checks keepsTime_sound
    (by decide +kernel : replayFeed.checks keepsTime (Replay.start pair 0) kept = true)
  have delivers := replay_delivers (by decide) (by simp [pair, rowAt]) steady ran
  exact ⟨replay, ran, stands, delivers.complete stands⟩

/-- **The second row is lost**: the clock is past it when its turn comes. -/
theorem second_row_raises :
    (∃ replay, replayFeed.run (Replay.start pair 0) overslept = some replay ∧
      ¬Delivers pair replay) := by
  have ended : (replayFeed.run (Replay.start pair 0) overslept).map Replay.stage =
      some (.raised (.backward 12 15)) := by decide +kernel
  obtain ⟨replay, ran, stands⟩ := Option.map_eq_some_iff.mp ended
  exact ⟨replay, ran, fun delivers => delivers.raisedNothing _ stands⟩

end Sample

end Tickwright.Feed
