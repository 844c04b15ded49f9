/-
# Engine.ExitRun -- an operator's exit run, from its first read to its outcome

`OperatorCancelAll` and `Flatten` are one machine: the cancel all step is the first
half of a flatten.  A phase is the call of the venue the job waits for, or the loops
of a flatten, which are `Engine.FlattenLoops`' own; what else reaches the engine at
an `await` is one of that machine's moves too.

The venue's answers are the environment's, a failed read among them, so a run here is
any run: any answers, any interleaving of the loops, any traffic meanwhile.

* `step_job`: a step is some steps of the loops' machine, so what those keep
  (`Engine.LoopEnds`) an exit run keeps;
* `Tells`: what the calls made so far say of the phase;
* `Fits`: what a phase says of the loops.

A feed's start and the wait for its prices are the time before a loop's first move.
-/
import Tickwright.Engine.LoopEnds
import Tickwright.Engine.Runner

namespace Tickwright.Engine

open Tickwright.Domain Tickwright.Theory Tickwright.Store

set_option autoImplicit false

/-! ## What the job asks, and what it reports -/

inductive ExitKind
  | cancelAll
  | flatten
deriving DecidableEq

/-- `ExitOutcome.left`, before it is written out as a text. -/
inductive Left
  /-- `NOTHING_LEFT`. -/
  | nothing
  /-- `describe_failure`. -/
  | failed (failure : VenueReadFailure)
  /-- `describe_orders`, and each symbol's size behind it. -/
  | holds (orders : List Resting) (positions : List (Symbol × Decimal))
deriving DecidableEq

structure ExitOutcome where
  status : Runner.ExitStatus
  left : Left
deriving DecidableEq

/-- What the job calls outside itself. -/
inductive ExitCall
  | tripped
  | listed (answer : Except VenueReadFailure (List Resting))
  | cancelled (resting : List Resting)
  | held (answer : Except VenueReadFailure (Dict Symbol Decimal))

/-- Where the job stands. -/
inductive ExitPhase
  /-- About to trip the kill switch. -/
  | tripping
  /-- `fetch_open_orders` of the cancel all step, and the cancel rounds behind it. -/
  | listing (rounds : ℕ)
  /-- The cancel of what the read showed, and the rounds behind it. -/
  | cancelling (resting : List Resting) (rounds : ℕ)
  /-- `fetch_positions`. -/
  | holding
  /-- The loops of the task group. -/
  | looping
  /-- The two reads of `_final_read`, and whether a loop gave up. -/
  | lastOrders (gaveUp : Bool)
  | lastPositions (gaveUp : Bool) (orders : List Resting)
  | ended (outcome : ExitOutcome)
  /-- A loop raised, and the task group with it. -/
  | faulted
deriving DecidableEq

/-- The job: its loops, the positions it read, and the symbols it gave a loop. -/
structure ExitRun where
  kind : ExitKind
  phase : ExitPhase
  job : Job
  sizes : Dict Symbol Decimal := Dict.empty
  symbols : List Symbol := []

inductive ExitMove
  | trips
  /-- `fetch_open_orders` returns. -/
  | lists (answer : Except VenueReadFailure (List Resting))
  | cancels (resting : List Resting) (nowNs : Nanos)
  /-- `fetch_positions` returns. -/
  | holds (answer : Except VenueReadFailure (Dict Symbol Decimal))
  /-- Something reaches the engine while the job waits. -/
  | meanwhile (move : JobMove)
  /-- A loop goes on. -/
  | loops (move : JobMove)
  /-- Every loop has returned. -/
  | gathers
  /-- A loop has raised. -/
  | breaks

namespace ExitMove

def call : ExitMove → Option ExitCall
  | .trips => some .tripped
  | .lists answer => some (.listed answer)
  | .cancels resting _ => some (.cancelled resting)
  | .holds answer => some (.held answer)
  | .meanwhile _ | .loops _ | .gathers | .breaks => none

end ExitMove

/-- The calls of a run, oldest first. -/
def callsOf (moves : List ExitMove) : List ExitCall := moves.filterMap ExitMove.call

namespace JobMove

/-- The move is a loop's, and `_flatten_symbol` starts on the size the job read. -/
def isLoop (symbols : List Symbol) (sizes : Dict Symbol Decimal) : JobMove → Bool
  | .handles .. | .drops _ | .sent _ | .hears .. => false
  | .begins symbol size => decide (symbol ∈ symbols) && decide (size = (sizes.get symbol).getD 0)
  | .drained symbol _ | .decides symbol | .passBegins symbol | .passEnds symbol _
  | .readFails symbol _ | .reads symbol _ _ | .prices symbol _ | .gapDrained symbol
  | .accountBegins symbol | .accountEnds symbol | .closes symbol _ | .closed symbol _
  | .closeRaises symbol => decide (symbol ∈ symbols)

end JobMove

namespace ExitPhase

/-- What follows a read of the cancel all step.  A round that is left cancels what
the read shows; a failed read or an empty book skips the rounds. -/
def listed (kind : ExitKind) (rounds : ℕ) : Except VenueReadFailure (List Resting) → ExitPhase
  | .error failure => .ended ⟨.stopped, .failed failure⟩
  | .ok [] => if kind = .flatten then .holding else .ended ⟨.done, .nothing⟩
  | .ok resting =>
      match rounds with
      | 0 => .ended ⟨.stopped, .holds resting []⟩
      | rounds + 1 => .cancelling resting rounds

/-- `_final_read`, its first read. -/
def relisted (gaveUp : Bool) : Except VenueReadFailure (List Resting) → ExitPhase
  | .error failure => .ended ⟨.stopped, .failed failure⟩
  | .ok orders => .lastPositions gaveUp orders

/-- `_final_read`, its second read, and a loop that gave up stops the run. -/
def reheld (gaveUp : Bool) (orders : List Resting) :
    Except VenueReadFailure (Dict Symbol Decimal) → ExitPhase
  | .error failure => .ended ⟨.stopped, .failed failure⟩
  | .ok positions =>
      if orders = [] ∧ positions.entries = [] then
        .ended ⟨if gaveUp then .stopped else .done, .nothing⟩
      else .ended ⟨.stopped, .holds orders positions.entries⟩

end ExitPhase

/-- `_held_in_books`. -/
def heldInBooks (portfolio : Portfolio) : List Symbol :=
  (portfolio.positions.values.map Position.symbol).filter fun symbol =>
    (portfolio.across symbol).any fun position => !position.isFlat

/-- `symbols`: what the venue reads held, and what the books hold. -/
def loopSymbols (portfolio : Portfolio) (positions : Dict Symbol Decimal) : List Symbol :=
  (positions.keys ++ heldInBooks portfolio).dedup.insertionSort fun a b => a ≤ b

namespace ExitRun

def portfolio (run : ExitRun) : Portfolio := run.job.life.process.memory.portfolio

/-- The loop returned. -/
def returned (run : ExitRun) (symbol : Symbol) : Bool :=
  match (run.job.loops symbol).stage with
  | .ended _ => true
  | _ => false

/-- The loop returned that it gave up. -/
def quit (run : ExitRun) (symbol : Symbol) : Bool :=
  decide ((run.job.loops symbol).stage = .ended true)

/-- The loop raised. -/
def raised (run : ExitRun) (symbol : Symbol) : Bool :=
  match (run.job.loops symbol).stage with
  | .faulted _ => true
  | _ => false

/-- What follows the read of the positions: the loops, if a symbol is held anywhere. -/
def heldAre (run : ExitRun) : Except VenueReadFailure (Dict Symbol Decimal) → ExitRun
  | .error failure => { run with phase := .ended ⟨.stopped, .failed failure⟩ }
  | .ok positions =>
      let symbols := loopSymbols run.portfolio positions
      { run with
        sizes := positions
        symbols := symbols
        phase := if symbols = [] then .lastOrders false else .looping }

section Step

variable (deriveCloid : SignalId → Cloid) (config : Config) (accountTruth : Bool)

def step (run : ExitRun) : ExitMove → Option ExitRun
  | .trips =>
      if run.phase = .tripping then some { run with phase := .listing 2 } else none
  | .lists answer =>
      match run.phase with
      | .listing rounds => some { run with phase := .listed run.kind rounds answer }
      | .lastOrders gaveUp => some { run with phase := .relisted gaveUp answer }
      | _ => none
  | .cancels resting nowNs =>
      match run.phase with
      | .cancelling shown rounds =>
          if resting = shown then
            (run.job.engineStep deriveCloid config
              (.handle (.operatorCancel resting) nowNs)).map fun job =>
                { run with job := job, phase := .listing rounds }
          else none
      | _ => none
  | .holds answer =>
      match run.phase with
      | .holding => some (run.heldAre answer)
      | .lastPositions gaveUp orders => some { run with phase := .reheld gaveUp orders answer }
      | _ => none
  | .meanwhile move =>
      if move.isMeanwhile then
        (run.job.step deriveCloid config accountTruth move).map fun job =>
          { run with job := job }
      else none
  | .loops move =>
      if run.phase = .looping ∧ move.isLoop run.symbols run.sizes then
        (run.job.step deriveCloid config accountTruth move).map fun job =>
          { run with job := job }
      else none
  | .gathers =>
      if run.phase = .looping ∧ run.symbols.all run.returned then
        some { run with phase := .lastOrders (run.symbols.any run.quit) }
      else none
  | .breaks =>
      if run.phase = .looping ∧ run.symbols.any run.raised then
        some { run with phase := .faulted }
      else none

/-- The machine of an exit run. -/
def machine : Machine ExitRun ExitMove := ⟨step deriveCloid config accountTruth⟩

end Step

/-- Where an exit run starts: the barrier has cleared, and no loop has begun. -/
structure Opens (run : ExitRun) : Prop where
  phase : run.phase = if run.kind = .flatten then .tripping else .listing 2
  symbols : run.symbols = []
  loops : ∀ symbol, (run.job.loops symbol).stage = .unstarted

end ExitRun

/-! ## What the calls say -/

/-- The last reads the job made, as the outcome's `left` has them. -/
def Left.read (kind : ExitKind) (calls : List ExitCall) : Left → Prop
  | .nothing => ∃ before, calls = before ++ .listed (.ok []) ::
      if kind = .flatten then [.held (.ok Dict.empty)] else []
  | .failed failure => ∃ before,
      calls = before ++ [.listed (.error failure)] ∨ calls = before ++ [.held (.error failure)]
  | .holds orders positions => (orders ≠ [] ∨ positions ≠ []) ∧ ∃ before,
      (positions = [] ∧ calls = before ++ [.listed (.ok orders)]) ∨
      ∃ held : Dict Symbol Decimal, held.entries = positions ∧
        calls = before ++ [.listed (.ok orders), .held (.ok held)]

def ExitCall.isCancel : ExitCall → Bool
  | .cancelled _ => true
  | .tripped | .listed _ | .held _ => false

namespace ExitPhase

/-- The cancel rounds that may still come. -/
def rounds : ExitPhase → ℕ
  | .tripping => 2
  | .listing rounds => rounds
  | .cancelling _ rounds => rounds + 1
  | .holding | .looping | .lastOrders _ | .lastPositions .. | .ended _ | .faulted => 0

/-- What the last calls were, in each phase. -/
def Last (kind : ExitKind) (calls : List ExitCall) : ExitPhase → Prop
  | .tripping => kind = .flatten ∧ calls = []
  | .listing _ | .faulted => True
  | .cancelling resting _ => resting ≠ [] ∧ ∃ before, calls = before ++ [.listed (.ok resting)]
  | .holding | .looping | .lastOrders _ => kind = .flatten
  | .lastPositions _ orders =>
      kind = .flatten ∧ ∃ before, calls = before ++ [.listed (.ok orders)]
  | .ended outcome => outcome.left.read kind calls

end ExitPhase

/-- Each cancel names what the read just before it showed, and something. -/
def Named (calls : List ExitCall) : Prop :=
  ∀ earlier resting later, calls = earlier ++ .cancelled resting :: later →
    resting ≠ [] ∧ ∃ before, earlier = before ++ [.listed (.ok resting)]

/-- A flatten trips the kill switch once, before any other call; a cancel all never. -/
def TripsFirst (kind : ExitKind) (calls : List ExitCall) : Prop :=
  ∃ rest, calls = (if kind = .flatten then [.tripped] else []) ++ rest ∧ .tripped ∉ rest

/-- What the calls made so far have to do with the phase. -/
structure Tells (kind : ExitKind) (phase : ExitPhase) (calls : List ExitCall) : Prop where
  trips : phase ≠ .tripping → TripsFirst kind calls
  named : Named calls
  rounds : calls.countP ExitCall.isCancel + phase.rounds ≤ 2
  last : phase.Last kind calls

theorem split_concat {α : Type*} {calls earlier later : List α} {call mid : α}
    (same : calls ++ [call] = earlier ++ mid :: later) :
    (later = [] ∧ earlier = calls ∧ mid = call) ∨
      ∃ rest, later = rest ++ [call] ∧ calls = earlier ++ mid :: rest := by
  rcases later.eq_nil_or_concat with rfl | ⟨rest, last, rfl⟩
  · obtain ⟨before, is⟩ := List.append_inj' same rfl
    cases is
    exact .inl ⟨rfl, before.symm, rfl⟩
  · have regrouped : calls ++ [call] = (earlier ++ mid :: rest) ++ [last] := by simpa using same
    obtain ⟨before, is⟩ := List.append_inj' regrouped rfl
    cases is
    exact .inr ⟨rest, by simp, before⟩

theorem Named.concat {calls : List ExitCall} (named : Named calls) {call : ExitCall}
    (other : call.isCancel = false) : Named (calls ++ [call]) := by
  intro earlier resting later same
  rcases split_concat same with ⟨-, -, is⟩ | ⟨rest, -, before⟩
  · subst is
    cases other
  · exact named earlier resting rest before

theorem TripsFirst.concat {kind : ExitKind} {calls : List ExitCall}
    (first : TripsFirst kind calls) {call : ExitCall} (other : call ≠ .tripped) :
    TripsFirst kind (calls ++ [call]) := by
  obtain ⟨rest, rfl, none_⟩ := first
  refine ⟨rest ++ [call], by simp, fun member => ?_⟩
  rcases List.mem_append.mp member with old | last
  · exact none_ old
  · exact other (List.mem_singleton.mp last).symm

/-- A read of the venue, and the phase behind it. -/
theorem Tells.reads {kind : ExitKind} {phase next : ExitPhase} {calls : List ExitCall}
    {call : ExitCall} (tells : Tells kind phase calls) (begun : phase ≠ .tripping)
    (noCancel : call.isCancel = false) (noTrip : call ≠ .tripped)
    (rounds : next.rounds ≤ phase.rounds) (last : next.Last kind (calls ++ [call])) :
    Tells kind next (calls ++ [call]) := by
  refine ⟨fun _ => (tells.trips begun).concat noTrip, tells.named.concat noCancel, ?_, last⟩
  have before := tells.rounds
  simp only [List.countP_append, List.countP_singleton, noCancel, Bool.false_eq_true, if_false]
  omega

theorem listed_tells {kind : ExitKind} {rounds : ℕ} {calls : List ExitCall}
    (tells : Tells kind (.listing rounds) calls)
    (answer : Except VenueReadFailure (List Resting)) :
    Tells kind (.listed kind rounds answer) (calls ++ [.listed answer]) := by
  match answer, rounds with
  | .error failure, rounds =>
      exact tells.reads (by simp) rfl (by simp) (Nat.zero_le _) ⟨calls, .inl rfl⟩
  | .ok [], rounds =>
      simp only [ExitPhase.listed]
      split
      · rename_i flatten
        exact tells.reads (by simp) rfl (by simp) (Nat.zero_le _) flatten
      · rename_i cancelAll
        exact tells.reads (by simp) rfl (by simp) (Nat.zero_le _)
          ⟨calls, by rw [if_neg cancelAll]⟩
  | .ok (order :: rest), 0 =>
      exact tells.reads (by simp) rfl (by simp) (Nat.zero_le _)
        ⟨.inl (by simp), calls, .inl ⟨rfl, rfl⟩⟩
  | .ok (order :: rest), rounds + 1 =>
      exact tells.reads (by simp) rfl (by simp) le_rfl ⟨by simp, calls, rfl⟩

theorem relisted_tells {kind : ExitKind} {gaveUp : Bool} {calls : List ExitCall}
    (tells : Tells kind (.lastOrders gaveUp) calls)
    (answer : Except VenueReadFailure (List Resting)) :
    Tells kind (.relisted gaveUp answer) (calls ++ [.listed answer]) := by
  cases answer with
  | error failure =>
      exact tells.reads (by simp) rfl (by simp) (Nat.zero_le _) ⟨calls, .inl rfl⟩
  | ok orders =>
      exact tells.reads (by simp) rfl (by simp) (Nat.zero_le _) ⟨tells.last, calls, rfl⟩

theorem reheld_tells {kind : ExitKind} {gaveUp : Bool} {orders : List Resting}
    {calls : List ExitCall} (tells : Tells kind (.lastPositions gaveUp orders) calls)
    (answer : Except VenueReadFailure (Dict Symbol Decimal)) :
    Tells kind (.reheld gaveUp orders answer) (calls ++ [.held answer]) := by
  obtain ⟨flatten, before, shown⟩ := tells.last
  cases answer with
  | error failure =>
      exact tells.reads (by simp) rfl (by simp) (Nat.zero_le _) ⟨calls, .inr rfl⟩
  | ok positions =>
      simp only [ExitPhase.reheld]
      split
      · rename_i empty
        have none_ : positions = Dict.empty := Dict.ext empty.2
        refine tells.reads (by simp) rfl (by simp) (Nat.zero_le _) ⟨before, ?_⟩
        rw [shown, empty.1, none_, if_pos flatten]
        simp
      · rename_i some_
        refine tells.reads (by simp) rfl (by simp) (Nat.zero_le _)
          ⟨not_and_or.mp some_, before, .inr ⟨positions, rfl, ?_⟩⟩
        rw [shown]
        simp

theorem heldAre_tells {run : ExitRun} {calls : List ExitCall}
    (tells : Tells run.kind .holding calls)
    (answer : Except VenueReadFailure (Dict Symbol Decimal)) :
    Tells run.kind (run.heldAre answer).phase (calls ++ [.held answer]) := by
  cases answer with
  | error failure =>
      exact tells.reads (by simp) rfl (by simp) (Nat.zero_le _) ⟨calls, .inr rfl⟩
  | ok positions =>
      simp only [ExitRun.heldAre]
      split
      · exact tells.reads (by simp) rfl (by simp) (Nat.zero_le _) tells.last
      · exact tells.reads (by simp) rfl (by simp) (Nat.zero_le _) tells.last

/-! ## The loops behind the outcome -/

namespace ExitRun

/-- Every loop has returned, and one of them that it gave up. -/
structure Gathered (run : ExitRun) (gaveUp : Bool) : Prop where
  all : ∀ symbol ∈ run.symbols, run.returned symbol = true
  any : gaveUp = run.symbols.any run.quit

/-- What a phase says of the loops. -/
def Fits (run : ExitRun) : ExitPhase → Prop
  | .tripping | .listing _ | .cancelling .. | .holding => run.symbols = []
  | .looping | .faulted => True
  | .lastOrders gaveUp | .lastPositions gaveUp _ => run.Gathered gaveUp
  | .ended outcome =>
      (outcome.status = .done ↔
        outcome.left = .nothing ∧ ∀ symbol ∈ run.symbols, run.quit symbol = false) ∧
      (outcome.status = .done → ∀ symbol ∈ run.symbols, run.returned symbol = true)

theorem quit_congr {before after : ExitRun} (loops : after.job.loops = before.job.loops) :
    after.quit = before.quit := by
  funext symbol
  simp only [quit, loops]

theorem returned_congr {before after : ExitRun} (loops : after.job.loops = before.job.loops) :
    after.returned = before.returned := by
  funext symbol
  simp only [returned, loops]

/-- A phase says the same of any run with these loops. -/
theorem Fits.congr {before after : ExitRun} {phase : ExitPhase} (fits : before.Fits phase)
    (symbols : after.symbols = before.symbols) (loops : after.job.loops = before.job.loops) :
    after.Fits phase := by
  cases phase with
  | lastOrders gaveUp | lastPositions gaveUp orders =>
      refine ⟨?_, ?_⟩
      · rw [symbols, returned_congr loops]
        exact fits.all
      · rw [symbols, quit_congr loops]
        exact fits.any
  | ended outcome =>
      simp only [Fits, symbols, returned_congr loops, quit_congr loops]
      exact fits
  | tripping | listing rounds | cancelling resting rounds | holding => exact symbols.trans fits
  | looping | faulted => trivial

/-- A run that is stopped with something left, or a read failed, says so. -/
theorem fits_stopped {run : ExitRun} {left : Left} (some_ : left ≠ .nothing) :
    run.Fits (.ended ⟨.stopped, left⟩) := by
  refine ⟨⟨fun done => ?_, fun none_ => (some_ none_.1).elim⟩, fun done => ?_⟩ <;> cases done

theorem listed_fits {run : ExitRun} {rounds : ℕ} (fits : run.symbols = [])
    (answer : Except VenueReadFailure (List Resting)) :
    run.Fits (.listed run.kind rounds answer) := by
  match answer, rounds with
  | .error failure, rounds => exact fits_stopped (by simp)
  | .ok [], rounds =>
      simp only [ExitPhase.listed]
      split
      · exact fits
      · refine ⟨⟨fun _ => ⟨rfl, ?_⟩, fun _ => rfl⟩, fun _ => ?_⟩ <;> rw [fits] <;>
          exact fun symbol member => nomatch member
  | .ok (order :: rest), 0 => exact fits_stopped (by simp)
  | .ok (order :: rest), rounds + 1 => exact fits

theorem relisted_fits {run : ExitRun} {gaveUp : Bool} (gathered : run.Gathered gaveUp)
    (answer : Except VenueReadFailure (List Resting)) :
    run.Fits (.relisted gaveUp answer) := by
  cases answer with
  | error failure => exact fits_stopped (by simp)
  | ok orders => exact gathered

theorem reheld_fits {run : ExitRun} {gaveUp : Bool} {orders : List Resting}
    (gathered : run.Gathered gaveUp) (answer : Except VenueReadFailure (Dict Symbol Decimal)) :
    run.Fits (.reheld gaveUp orders answer) := by
  cases answer with
  | error failure => exact fits_stopped (by simp)
  | ok positions =>
      simp only [ExitPhase.reheld]
      split
      · refine ⟨?_, fun _ => gathered.all⟩
        rw [gathered.any]
        simp only [true_and]
        constructor
        · intro done symbol member
          by_contra quits
          have any : run.symbols.any run.quit = true :=
            List.any_eq_true.mpr ⟨symbol, member, by simpa using quits⟩
          rw [any] at done
          cases done
        · intro none_
          have any : run.symbols.any run.quit = false := by
            rw [List.any_eq_false]
            exact fun symbol member => by simp [none_ symbol member]
          rw [any]
          rfl
      · exact fits_stopped (by simp)

theorem heldAre_fits (run : ExitRun) (answer : Except VenueReadFailure (Dict Symbol Decimal)) :
    (run.heldAre answer).Fits (run.heldAre answer).phase := by
  cases answer with
  | error failure => exact fits_stopped (by simp)
  | ok positions =>
      simp only [heldAre]
      split
      · rename_i none_
        refine ⟨?_, ?_⟩
        · rw [none_]
          exact fun symbol member => nomatch member
        · rw [none_]
          rfl
      · trivial

/-- The loops a late phase speaks of are those of every symbol held when the run read
the positions: at the venue, or in the books. -/
def HasRead (machine : Machine ExitRun ExitMove) (start : ExitRun) (moves : List ExitMove)
    (run : ExitRun) : Prop :=
  ∃ first positions second middle, moves = first ++ .holds (.ok positions) :: second ∧
    machine.run start first = some middle ∧
    run.symbols = loopSymbols middle.portfolio positions

/-- The phase comes after the read of the positions. -/
def late (kind : ExitKind) : ExitPhase → Prop
  | .looping | .lastOrders _ | .lastPositions .. => True
  | .ended outcome => kind = .flatten ∧ outcome.left = .nothing
  | .tripping | .listing _ | .cancelling .. | .holding | .faulted => False

theorem not_late_listed {kind : ExitKind} {rounds : ℕ}
    {answer : Except VenueReadFailure (List Resting)} :
    ¬ late kind (.listed kind rounds answer) := by
  match answer, rounds with
  | .error failure, rounds => exact fun is => nomatch is.2
  | .ok [], rounds =>
      simp only [ExitPhase.listed]
      split
      · exact id
      · rename_i cancelAll
        exact fun is => cancelAll is.1
  | .ok (order :: rest), 0 => exact fun is => nomatch is.2
  | .ok (order :: rest), rounds + 1 => exact id

theorem HasRead.concat {machine : Machine ExitRun ExitMove} {start before after : ExitRun}
    {moves : List ExitMove} (read : HasRead machine start moves before) (move : ExitMove)
    (symbols : after.symbols = before.symbols) : HasRead machine start (moves ++ [move]) after := by
  obtain ⟨first, positions, second, middle, rfl, ran, are⟩ := read
  exact ⟨first, positions, second ++ [move], middle, by simp, ran, symbols.trans are⟩

end ExitRun

theorem mem_loopSymbols {portfolio : Portfolio} {positions : Dict Symbol Decimal}
    {symbol : Symbol} : symbol ∈ loopSymbols portfolio positions ↔
      symbol ∈ positions.keys ∨ symbol ∈ heldInBooks portfolio := by
  rw [loopSymbols, List.mem_insertionSort, List.mem_dedup, List.mem_append]

/-! ## A step of the run -/

namespace ExitRun

section Run

variable {deriveCloid : SignalId → Cloid} {config : Config} {accountTruth : Bool}

/-- The loops' own steps under one of the run. -/
def under : ExitMove → List JobMove
  | .cancels resting nowNs => [.hears (.operatorCancel resting) nowNs]
  | .meanwhile move | .loops move => [move]
  | .trips | .lists _ | .holds _ | .gathers | .breaks => []

theorem heldAre_job (run : ExitRun) (answer : Except VenueReadFailure (Dict Symbol Decimal)) :
    (run.heldAre answer).job = run.job ∧ (run.heldAre answer).kind = run.kind := by
  cases answer <;> exact ⟨rfl, rfl⟩

theorem run_one {before after : Job} {move : JobMove}
    (stepped : before.step deriveCloid config accountTruth move = some after) :
    (Job.machine deriveCloid config accountTruth).run before [move] = some after :=
  Machine.run_cons_eq_some.mpr ⟨after, stepped, rfl⟩

/-- **A step of the run is some steps of the loops' machine**, and keeps the kind. -/
theorem step_job {before after : ExitRun} {move : ExitMove}
    (stepped : before.step deriveCloid config accountTruth move = some after) :
    (Job.machine deriveCloid config accountTruth).run before.job (under move) = some after.job ∧
      after.kind = before.kind := by
  cases move with
  | trips =>
      simp only [step] at stepped
      split at stepped <;> cases stepped
      exact ⟨rfl, rfl⟩
  | lists answer =>
      simp only [step] at stepped
      split at stepped <;> cases stepped <;> exact ⟨rfl, rfl⟩
  | cancels resting nowNs =>
      simp only [step] at stepped
      split at stepped
      · split at stepped
        · obtain ⟨job, taken, rfl⟩ := Option.map_eq_some_iff.mp stepped
          exact ⟨run_one taken, rfl⟩
        · cases stepped
      · cases stepped
  | holds answer =>
      simp only [step] at stepped
      split at stepped
      · cases stepped
        have same := before.heldAre_job answer
        exact ⟨by rw [same.1]; rfl, same.2⟩
      · cases stepped
        exact ⟨rfl, rfl⟩
      · cases stepped
  | meanwhile move =>
      simp only [step] at stepped
      split at stepped
      · obtain ⟨job, taken, rfl⟩ := Option.map_eq_some_iff.mp stepped
        exact ⟨run_one taken, rfl⟩
      · cases stepped
  | loops move =>
      simp only [step] at stepped
      split at stepped
      · obtain ⟨job, taken, rfl⟩ := Option.map_eq_some_iff.mp stepped
        exact ⟨run_one taken, rfl⟩
      · cases stepped
  | gathers | breaks =>
      simp only [step] at stepped
      split at stepped <;> cases stepped
      exact ⟨rfl, rfl⟩

/-- What ties a run's state to the moves that led to it. -/
structure Told (machine : Machine ExitRun ExitMove) (start : ExitRun) (moves : List ExitMove)
    (run : ExitRun) : Prop where
  tells : Tells run.kind run.phase (callsOf moves)
  fits : run.Fits run.phase
  read : late run.kind run.phase → HasRead machine start moves run

theorem callsOf_concat (moves : List ExitMove) (move : ExitMove) :
    callsOf (moves ++ [move]) = callsOf moves ++ move.call.toList := by
  simp only [callsOf, List.filterMap_append, List.filterMap_cons, List.filterMap_nil]
  cases move.call <;> rfl

/-- A step that calls nothing, from a phase to itself or to one that asks no less. -/
theorem Told.quietly {machine : Machine ExitRun ExitMove} {start before after : ExitRun}
    {moves : List ExitMove} (told : Told machine start moves before) {move : ExitMove}
    (quiet : move.call = none) (kind : after.kind = before.kind)
    (phase : after.phase = before.phase) (symbols : after.symbols = before.symbols)
    (fits : after.Fits after.phase) :
    Told machine start (moves ++ [move]) after := by
  refine ⟨?_, fits, fun late => ?_⟩
  · rw [callsOf_concat, quiet, kind, phase]
    simpa using told.tells
  · rw [kind, phase] at late
    exact (told.read late).concat move symbols

/-- A step of the job beside the run leaves what is said of the loops, where no loop moves. -/
theorem Told.between {machine : Machine ExitRun ExitMove} {start before : ExitRun}
    {moves : List ExitMove} (told : Told machine start moves before) {job : Job}
    (loops : job.loops = before.job.loops) {move : ExitMove} (quiet : move.call = none) :
    Told machine start (moves ++ [move]) { before with job := job } :=
  told.quietly quiet rfl rfl rfl (told.fits.congr rfl loops)

/-- **One step keeps it.** -/
theorem step_told {start before after : ExitRun} {moves : List ExitMove} {move : ExitMove}
    (ran : (machine deriveCloid config accountTruth).run start moves = some before)
    (told : Told (machine deriveCloid config accountTruth) start moves before)
    (stepped : before.step deriveCloid config accountTruth move = some after) :
    Told (machine deriveCloid config accountTruth) start (moves ++ [move]) after := by
  cases move with
  | trips =>
      simp only [step] at stepped
      split at stepped
      · rename_i tripping
        cases stepped
        have last := told.tells.last
        have fits := told.fits
        rw [tripping] at last fits
        refine ⟨?_, fits, fun late => late.elim⟩
        rw [callsOf_concat, last.2]
        refine ⟨fun _ => ⟨[], by simp [ExitMove.call, last.1], by simp⟩, ?_, le_rfl, trivial⟩
        intro earlier resting later same
        have alone : [] ++ [ExitCall.tripped] = earlier ++ .cancelled resting :: later := same
        rcases split_concat alone with ⟨-, -, is⟩ | ⟨rest, -, before⟩
        · cases is
        · simp at before
      · cases stepped
  | lists answer =>
      simp only [step] at stepped
      have tells := told.tells
      have fits := told.fits
      split at stepped
      · rename_i rounds listing
        cases stepped
        rw [listing] at tells fits
        refine ⟨?_, ?_, fun late => ?_⟩
        · rw [callsOf_concat]
          exact listed_tells tells answer
        · exact (listed_fits fits answer).congr rfl rfl
        · exact (not_late_listed late).elim
      · rename_i gaveUp lastOrders
        cases stepped
        have was := told.read
        rw [lastOrders] at tells fits was
        refine ⟨?_, ?_, fun _ => (was trivial).concat _ rfl⟩
        · rw [callsOf_concat]
          exact relisted_tells tells answer
        · exact (relisted_fits fits answer).congr rfl rfl
      · cases stepped
  | cancels resting nowNs =>
      simp only [step] at stepped
      split at stepped
      · rename_i shown rounds cancelling
        split at stepped
        · rename_i is
          subst is
          obtain ⟨job, taken, rfl⟩ := Option.map_eq_some_iff.mp stepped
          have tells := told.tells
          have fits := told.fits
          rw [cancelling] at tells fits
          obtain ⟨some_, shownBefore⟩ := tells.last
          refine ⟨?_, fits, fun late => late.elim⟩
          rw [callsOf_concat]
          refine ⟨fun _ => (tells.trips (by simp)).concat (by simp), ?_, ?_, trivial⟩
          · intro earlier other later same
            rcases split_concat same with ⟨-, before, is⟩ | ⟨rest, -, before⟩
            · cases is
              rw [before]
              exact ⟨some_, shownBefore⟩
            · exact tells.named earlier other rest before
          · have bound := tells.rounds
            simp only [ExitMove.call, Option.toList_some, List.countP_append,
              List.countP_singleton, ExitCall.isCancel, if_true, ExitPhase.rounds] at bound ⊢
            omega
        · cases stepped
      · cases stepped
  | holds answer =>
      simp only [step] at stepped
      have tells := told.tells
      split at stepped
      · rename_i holding
        cases stepped
        rw [holding] at tells
        refine ⟨?_, before.heldAre_fits answer, fun late => ?_⟩
        · rw [callsOf_concat, (before.heldAre_job answer).2]
          exact heldAre_tells tells answer
        · cases answer with
          | error failure => exact nomatch late.2
          | ok positions => exact ⟨moves, positions, [], before, rfl, ran, rfl⟩
      · rename_i gaveUp orders lastPositions
        cases stepped
        have was := told.read
        have fits := told.fits
        rw [lastPositions] at tells fits was
        refine ⟨?_, ?_, fun _ => (was trivial).concat _ rfl⟩
        · rw [callsOf_concat]
          exact reheld_tells tells answer
        · exact (reheld_fits fits answer).congr rfl rfl
      · cases stepped
  | meanwhile move =>
      simp only [step] at stepped
      split at stepped
      · rename_i between
        obtain ⟨job, taken, rfl⟩ := Option.map_eq_some_iff.mp stepped
        exact told.between (step_meanwhile between taken).1 rfl
      · cases stepped
  | loops move =>
      simp only [step] at stepped
      split at stepped
      · rename_i looping
        obtain ⟨job, taken, rfl⟩ := Option.map_eq_some_iff.mp stepped
        refine told.quietly rfl rfl rfl rfl ?_
        simp only [looping.1]
        trivial
      · cases stepped
  | gathers =>
      simp only [step] at stepped
      split at stepped
      · rename_i gathering
        cases stepped
        have tells := told.tells
        have was := told.read
        rw [gathering.1] at tells was
        refine ⟨?_, ⟨?_, rfl⟩, fun _ => (was trivial).concat _ rfl⟩
        · rw [callsOf_concat]
          simp only [ExitMove.call, Option.toList_none, List.append_nil]
          exact ⟨fun _ => tells.trips (by simp), tells.named, tells.rounds, tells.last⟩
        · exact List.all_eq_true.mp gathering.2
      · cases stepped
  | breaks =>
      simp only [step] at stepped
      split at stepped
      · rename_i breaking
        cases stepped
        have tells := told.tells
        rw [breaking.1] at tells
        refine ⟨?_, trivial, fun late => late.elim⟩
        rw [callsOf_concat]
        simp only [ExitMove.call, Option.toList_none, List.append_nil]
        exact ⟨fun _ => tells.trips (by simp), tells.named, tells.rounds, trivial⟩
      · cases stepped

end Run

end ExitRun

/-! ## The whole run -/

namespace ExitRun

section Whole

variable {deriveCloid : SignalId → Cloid} {config : Config} {accountTruth : Bool}

theorem Opens.told {start : ExitRun} (opens : start.Opens) :
    Told (machine deriveCloid config accountTruth) start [] start := by
  cases kind : start.kind with
  | flatten =>
      have phase : start.phase = .tripping := by rw [opens.phase, kind]; rfl
      refine ⟨?_, ?_, fun late => ?_⟩
      · rw [phase]
        exact ⟨fun begun => (begun rfl).elim,
          fun earlier resting later same => by simp [callsOf] at same, le_rfl, kind, rfl⟩
      · rw [phase]
        exact opens.symbols
      · rw [phase] at late
        exact late.elim
  | cancelAll =>
      have phase : start.phase = .listing 2 := by rw [opens.phase, kind]; rfl
      refine ⟨?_, ?_, fun late => ?_⟩
      · rw [phase]
        exact ⟨fun _ => ⟨[], by simp [callsOf, kind], by simp⟩,
          fun earlier resting later same => by simp [callsOf] at same, le_rfl, trivial⟩
      · rw [phase]
        exact opens.symbols
      · rw [phase] at late
        exact late.elim

theorem run_told {start final : ExitRun} {moves : List ExitMove} (opens : start.Opens)
    (ran : (machine deriveCloid config accountTruth).run start moves = some final) :
    Told (machine deriveCloid config accountTruth) start moves final :=
  Machine.run_history (Told (machine deriveCloid config accountTruth) start) step_told
    opens.told ran

theorem run_kind {start final : ExitRun} {moves : List ExitMove}
    (ran : (machine deriveCloid config accountTruth).run start moves = some final) :
    final.kind = start.kind :=
  Machine.run_induct (fun run => run.kind = start.kind)
    (fun same stepped => (step_job stepped).2.trans same) rfl ran

/-- An exit run keeps what the loops' machine keeps. -/
theorem run_shut {start final : ExitRun} {moves : List ExitMove} (opens : start.Opens)
    (ran : (machine deriveCloid config accountTruth).run start moves = some final) :
    Shut final.job := by
  have simulated :=
    Machine.run_simulates ExitRun.job under (fun stepped => (step_job stepped).1) ran
  refine Machine.run_induct Shut (fun shut stepped => (step_shuts stepped).shut shut) ?_ simulated
  intro symbol ends
  rw [opens.loops symbol] at ends
  cases ends

/-- What the outcome of an exit run proves. -/
structure Proves (machine : Machine ExitRun ExitMove) (start final : ExitRun)
    (moves : List ExitMove) (outcome : ExitOutcome) : Prop where
  trips : TripsFirst start.kind (callsOf moves)
  named : Named (callsOf moves)
  /-- No more than two cancels. -/
  rounds : (callsOf moves).countP ExitCall.isCancel ≤ 2
  /-- `left` is what the last reads left, or how the last one failed. -/
  left : outcome.left.read start.kind (callsOf moves)
  /-- Done is a last read that found nothing, and no loop that gave up. -/
  done : outcome.status = .done ↔
    outcome.left = .nothing ∧ ∀ symbol ∈ final.symbols, final.quit symbol = false
  /-- Whatever was held at the venue or in the books had a loop, and each loop of a
  run that is done read its symbol flat and moved its leftover. -/
  flat : outcome.status = .done → start.kind = .flatten →
    ∃ first positions second middle, moves = first ++ .holds (.ok positions) :: second ∧
      machine.run start first = some middle ∧
      ∀ symbol, symbol ∈ positions.keys ∨ symbol ∈ heldInBooks middle.portfolio →
        (final.job.loops symbol).stage = .ended false ∧ (final.job.loops symbol).size = 0 ∧
          symbol ∈ final.job.moved

theorem ended_of_returned {run : ExitRun} {symbol : Symbol} (returned : run.returned symbol = true)
    (stays : run.quit symbol = false) : (run.job.loops symbol).stage = .ended false := by
  simp only [ExitRun.returned] at returned
  simp only [quit, decide_eq_false_iff_not] at stays
  split at returned
  · rename_i gaveUp stage
    cases gaveUp with
    | false => exact stage
    | true => exact (stays stage).elim
  · cases returned

/-- **Only the venue's own last word ends an exit run as done.**  However the loops
interleave and whatever reaches the engine meanwhile: the kill switch trips before any
call, each cancel names what the read before it showed, and a run is done exactly when
its last reads found nothing and no loop gave up, each symbol held at the venue or in
the books having been read flat and its leftover moved. -/
theorem exit_done_proved {start final : ExitRun} {moves : List ExitMove} {outcome : ExitOutcome}
    (opens : start.Opens)
    (ran : (machine deriveCloid config accountTruth).run start moves = some final)
    (ended : final.phase = .ended outcome) :
    Proves (machine deriveCloid config accountTruth) start final moves outcome := by
  have told := run_told opens ran
  have kind := run_kind ran
  have tells := told.tells
  have fits := told.fits
  have read := told.read
  rw [ended] at tells fits read
  rw [kind] at tells read
  refine ⟨tells.trips (by simp), tells.named, tells.rounds, tells.last, fits.1,
    fun done flatten => ?_⟩
  have clean := fits.1.mp done
  obtain ⟨first, positions, second, middle, split_, reached, symbols⟩ := read ⟨flatten, clean.1⟩
  refine ⟨first, positions, second, middle, split_, reached, fun symbol held => ?_⟩
  have member : symbol ∈ final.symbols := by
    rw [symbols]
    exact mem_loopSymbols.mpr held
  have over_ := ended_of_returned (fits.2 done symbol member) (clean.2 symbol member)
  exact ⟨over_, run_shut opens ran symbol over_⟩

end Whole

end ExitRun

namespace Sample

/-- A move of the loops' machine, as the run takes it. -/
def asExit : JobMove → ExitMove
  | .hears input nowNs => .meanwhile (.hears input nowNs)
  | .handles signal verdict nowNs => .meanwhile (.handles signal verdict nowNs)
  | .sent nowNs => .meanwhile (.sent nowNs)
  | .drops signal => .meanwhile (.drops signal)
  | move => .loops move

def onlyTen : Dict Symbol Decimal := Dict.empty.set "BTC" 10

/-- One external order is cancelled, and the ten are closed. -/
def flattenMoves : List ExitMove :=
  [.trips, .lists (.ok [.external "BTC" "91"]), .cancels [.external "BTC" "91"] 5,
    .lists (.ok []), .holds (.ok onlyTen)] ++ flatMoves.map asExit ++
  [.loops (.reads "BTC" 0 12), .gathers, .lists (.ok []), .holds (.ok Dict.empty)]

def exiting (job : Job) : ExitRun where
  kind := .flatten
  phase := .tripping
  job := job

theorem flattened : ∃ start final, start.Opens ∧
    (ExitRun.machine closeCloid inLots true).run start flattenMoves = some final ∧
    final.phase = .ended ⟨.done, .nothing⟩ ∧
    ExitRun.Proves (ExitRun.machine closeCloid inLots true) start final flattenMoves
      ⟨.done, .nothing⟩ := by
  have ran : ((overTen []).bind fun job =>
      ((ExitRun.machine closeCloid inLots true).run (exiting job) flattenMoves).map
        ExitRun.phase) = some (.ended ⟨.done, .nothing⟩) := by
    decide +kernel
  obtain ⟨job, opened, ran⟩ := Option.bind_eq_some_iff.mp ran
  obtain ⟨final, ran, ended⟩ := Option.map_eq_some_iff.mp ran
  have opens : (exiting job).Opens := ⟨rfl, rfl, (overTen_opens opened).loops⟩
  exact ⟨exiting job, final, opens, ran, ended, ExitRun.exit_done_proved opens ran ended⟩

end Sample

end Tickwright.Engine
