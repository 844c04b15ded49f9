/-
# Engine.WakeSlots -- wake-ups on a grid of clock time

`run_aligned` sleeps until the next multiple of a strategy's interval and calls its
cycle with the latest one reached.  The cycle publishes a `Wake`; what reaches the
host's gate is that one, or any other, late, twice or out of order.  The gate
remembers the last slot it let through and judges a wake's age by the clock.

Between two moves of the loop the clock moves by any amount, also while a cycle is
under way.

* `wakes_once`: in every run in which no cycle is still under way when a later slot
  is reached, the loop calls its cycle once a slot, in order, never ahead of the
  clock, and has called it with the latest slot whenever it parks; the strategy
  sees increasing slots, none ahead of the clock and none older than an interval.
* `parks_late_iff` is about the other runs: a cycle that ends after a later slot
  was reached leaves that slot behind.
-/
import Tickwright.Domain.Vocabulary
import Tickwright.Theory.Grid
import Tickwright.Theory.Machine

namespace Tickwright.Engine

open Tickwright.Domain Tickwright.Theory

set_option autoImplicit false

/-! ## The loop and the gate -/

/-- What `duration_ns` makes of a declared interval. -/
structure WakeInterval where
  ns : Nanos
  positive : 0 < ns

/-- One strategy's slot has come; `tsEvent` is the slot. -/
structure Wake where
  tsEvent : Nanos
  tsInit : Nanos
  strategyId : StrategyId
deriving DecidableEq

/-- Where `run_aligned` stands: parked in `sleep_until`, since when and until when,
or inside a cycle. -/
inductive AlignedLoop
  | parked (sinceNs targetNs : Nanos)
  | cycling (slot : Nanos)
deriving DecidableEq

/-- The loop goes to sleep until the next slot. -/
def AlignedLoop.park (interval : WakeInterval) (nowNs : Nanos) : AlignedLoop :=
  .parked nowNs (Grid.nextSlot interval.ns nowNs)

/-- A call with a slot, and the clock it was made at. -/
structure SlotCall where
  slot : Nanos
  atNs : Nanos
deriving DecidableEq

/-- What the gate of one strategy remembers. -/
structure WakeGate where
  lastSlot : Option Nanos := none
deriving DecidableEq

/-- `on_wake`: whether the strategy's own handler is called, and what the gate keeps.
A strategy with no interval drops every wake. -/
def WakeGate.onWake (gate : WakeGate) (strategyId : StrategyId) (maxAgeNs : Option Nanos)
    (nowNs : Nanos) (wake : Wake) : WakeGate × Bool :=
  match maxAgeNs with
  | none => (gate, false)
  | some maxAge =>
      if wake.strategyId ≠ strategyId then (gate, false)
      else if gate.lastSlot.any (fun last => wake.tsEvent ≤ last) then (gate, false)
      else
        let ageNs := nowNs - wake.tsEvent
        if ageNs < 0 ∨ ageNs > maxAge then (gate, false)
        else ({ lastSlot := some wake.tsEvent }, true)

/-! ## One life of a waking strategy -/

structure WakeConfig where
  strategyId : StrategyId
  interval : WakeInterval

/-- The clock, the loop and the gate, with the calls each has made. -/
structure Waking where
  nowNs : Nanos
  loop : AlignedLoop
  calls : List SlotCall := []
  gate : WakeGate := {}
  woken : List SlotCall := []
deriving DecidableEq

/-- One move: the clock goes on, the loop wakes or its cycle ends, or a wake reaches
the gate. -/
inductive WakingMove
  | pass (ns : ℕ)
  | fire
  | park
  | deliver (wake : Wake)

/-- A life begins: the loop parks at once. -/
def Waking.start (config : WakeConfig) (startNs : Nanos) : Waking where
  nowNs := startNs
  loop := .park config.interval startNs

/-- **The loop, the gate and the clock.** -/
def waking (config : WakeConfig) : Machine Waking WakingMove where
  step life move :=
    match move with
    | .pass ns => some { life with nowNs := life.nowNs + ns }
    | .fire =>
        match life.loop with
        | .parked _ targetNs =>
            if targetNs ≤ life.nowNs then
              let slot := Grid.slotAt config.interval.ns life.nowNs
              some { life with
                loop := .cycling slot, calls := life.calls ++ [⟨slot, life.nowNs⟩] }
            else none
        | .cycling _ => none
    | .park =>
        match life.loop with
        | .parked _ _ => none
        | .cycling _ => some { life with loop := .park config.interval life.nowNs }
    | .deliver wake =>
        let (gate, called) :=
          life.gate.onWake config.strategyId (some config.interval.ns) life.nowNs wake
        some { life with
          gate := gate
          woken := if called then life.woken ++ [⟨wake.tsEvent, life.nowNs⟩] else life.woken }

/-- What the wake-ups of a life promise. -/
structure WakesOnce (config : WakeConfig) (startNs : Nanos) (life : Waking) : Prop where
  /-- The cycle is called with increasing slots, -/
  increasing : (life.calls.map SlotCall.slot).Pairwise (· < ·)
  /-- each a multiple of the interval after the start and not after the clock. -/
  onGrid : ∀ call ∈ life.calls, config.interval.ns ∣ call.slot ∧ startNs < call.slot ∧
    (0 ≤ startNs → 0 < call.slot) ∧ call.slot ≤ call.atNs
  /-- When the loop parks, the latest slot since the start was called. -/
  latest : ∀ sinceNs targetNs slot, life.loop = .parked sinceNs targetNs →
    config.interval.ns ∣ slot → startNs < slot → slot ≤ sinceNs →
    (∀ other, config.interval.ns ∣ other → other ≤ sinceNs → other ≤ slot) →
    slot ∈ life.calls.map SlotCall.slot
  /-- The strategy sees increasing slots, -/
  wokenIncreasing : (life.woken.map SlotCall.slot).Pairwise (· < ·)
  /-- none ahead of the clock nor older than an interval. -/
  wokenFresh : ∀ call ∈ life.woken,
    call.slot ≤ call.atNs ∧ call.atNs - call.slot ≤ config.interval.ns

/-- No slot is reached while a cycle is under way. -/
def CyclesInTime (config : WakeConfig) (life : Waking) : WakingMove → Prop
  | .pass ns => ∀ slot, life.loop = .cycling slot →
      Grid.slotAt config.interval.ns (life.nowNs + ns) = Grid.slotAt config.interval.ns life.nowNs
  | .fire | .park | .deliver _ => True

/-! ## The gate -/

variable {config : WakeConfig} {startNs : Nanos} {life after : Waking}

/-- What a wake that is let through was judged to be. -/
theorem onWake_called {gate next : WakeGate} {strategyId : StrategyId} {maxAge nowNs : Nanos}
    {wake : Wake} (called : gate.onWake strategyId (some maxAge) nowNs wake = (next, true)) :
    next = { lastSlot := some wake.tsEvent } ∧ wake.tsEvent ≤ nowNs ∧
      nowNs - wake.tsEvent ≤ maxAge ∧ ∀ last, gate.lastSlot = some last → last < wake.tsEvent := by
  simp only [WakeGate.onWake] at called
  split at called
  · simp at called
  · split at called
    · simp at called
    · split at called
      · simp at called
      · rename_i own newer fresh
        simp only [Prod.mk.injEq, and_true] at called
        push Not at fresh
        refine ⟨called.symm, by linarith [fresh.1], fresh.2, fun last known => ?_⟩
        simpa [known] using newer

theorem onWake_dropped {gate next : WakeGate} {strategyId : StrategyId} {maxAge nowNs : Nanos}
    {wake : Wake} (dropped : gate.onWake strategyId (some maxAge) nowNs wake = (next, false)) :
    next = gate := by
  simp only [WakeGate.onWake] at dropped
  split at dropped
  · simpa using dropped.symm
  · split at dropped
    · simpa using dropped.symm
    · split at dropped
      · simpa using dropped.symm
      · simp at dropped

/-! ## What every move keeps -/

/-- Nothing called so far is past the instant the loop last looked at the clock. -/
def LoopStands (config : WakeConfig) (startNs : Nanos) (life : Waking) : AlignedLoop → Prop
  | .parked sinceNs targetNs =>
      targetNs = Grid.nextSlot config.interval.ns sinceNs ∧ startNs ≤ sinceNs ∧
        ∀ call ∈ life.calls, call.slot ≤ sinceNs
  | .cycling slot => config.interval.ns ∣ slot ∧ startNs < slot ∧
      slot ∈ life.calls.map SlotCall.slot ∧ ∀ call ∈ life.calls, call.slot ≤ slot

structure Paced (config : WakeConfig) (startNs : Nanos) (life : Waking) : Prop where
  started : startNs ≤ life.nowNs
  increasing : (life.calls.map SlotCall.slot).Pairwise (· < ·)
  onGrid : ∀ call ∈ life.calls, config.interval.ns ∣ call.slot ∧ startNs < call.slot ∧
    call.slot ≤ call.atNs
  reached : ∀ call ∈ life.calls, call.slot ≤ life.nowNs
  standing : LoopStands config startNs life life.loop
  wokenIncreasing : (life.woken.map SlotCall.slot).Pairwise (· < ·)
  wokenFresh : ∀ call ∈ life.woken,
    call.slot ≤ call.atNs ∧ call.atNs - call.slot ≤ config.interval.ns
  remembers : ∀ call ∈ life.woken, ∃ last, life.gate.lastSlot = some last ∧ call.slot ≤ last

/-- What one move does. -/
theorem waking_cases {move : WakingMove} (moved : (waking config).step life move = some after) :
    (∃ ns : ℕ, move = .pass ns ∧ after = { life with nowNs := life.nowNs + ns }) ∨
    (∃ sinceNs targetNs, move = .fire ∧ life.loop = .parked sinceNs targetNs ∧
      targetNs ≤ life.nowNs ∧ after = { life with
        loop := .cycling (Grid.slotAt config.interval.ns life.nowNs)
        calls := life.calls ++ [⟨Grid.slotAt config.interval.ns life.nowNs, life.nowNs⟩] }) ∨
    (∃ slot, move = .park ∧ life.loop = .cycling slot ∧
      after = { life with loop := .park config.interval life.nowNs }) ∨
    (∃ wake gate, move = .deliver wake ∧
      ((life.gate.onWake config.strategyId (some config.interval.ns) life.nowNs wake =
          (gate, true) ∧
        after = { life with
          gate := gate, woken := life.woken ++ [⟨wake.tsEvent, life.nowNs⟩] }) ∨
      (gate = life.gate ∧ after = life))) := by
  cases move with
  | pass ns =>
      simp only [waking, Option.some.injEq] at moved
      exact .inl ⟨ns, rfl, moved.symm⟩
  | fire =>
      cases stands : life.loop with
      | parked sinceNs targetNs =>
          simp only [waking, stands] at moved
          split at moved
          · rename_i due
            simp only [Option.some.injEq] at moved
            exact .inr (.inl ⟨sinceNs, targetNs, rfl, rfl, due, moved.symm⟩)
          · cases moved
      | cycling slot => simp [waking, stands] at moved
  | park =>
      cases stands : life.loop with
      | parked sinceNs targetNs => simp [waking, stands] at moved
      | cycling slot =>
          simp only [waking, stands, Option.some.injEq] at moved
          exact .inr (.inr (.inl ⟨slot, rfl, rfl, moved.symm⟩))
  | deliver wake =>
      refine .inr (.inr (.inr ⟨wake, ?_⟩))
      cases judged : life.gate.onWake config.strategyId (some config.interval.ns) life.nowNs wake
        with
      | mk gate called =>
          simp only [waking, judged, Option.some.injEq] at moved
          cases called with
          | true => exact ⟨gate, rfl, .inl ⟨rfl, moved.symm⟩⟩
          | false =>
              have kept := onWake_dropped judged
              subst kept
              exact ⟨life.gate, rfl, .inr ⟨rfl, moved.symm⟩⟩

theorem paced_start : Paced config startNs (Waking.start config startNs) where
  started := le_refl _
  increasing := List.Pairwise.nil
  onGrid := by simp [Waking.start]
  reached := by simp [Waking.start]
  standing := ⟨rfl, le_refl _, by simp [Waking.start]⟩
  wokenIncreasing := List.Pairwise.nil
  wokenFresh := by simp [Waking.start]
  remembers := by simp [Waking.start]

/-- A list that rises, and one more at the end that is past them all. -/
theorem increasing_append {calls : List SlotCall} {call : SlotCall}
    (increasing : (calls.map SlotCall.slot).Pairwise (· < ·))
    (past : ∀ earlier ∈ calls, earlier.slot < call.slot) :
    ((calls ++ [call]).map SlotCall.slot).Pairwise (· < ·) := by
  rw [List.map_append, List.pairwise_append]
  refine ⟨increasing, List.pairwise_singleton _ _, ?_⟩
  intro slot member last ended
  obtain ⟨earlier, there, rfl⟩ := List.mem_map.mp member
  obtain rfl : last = call.slot := by simpa using ended
  exact past earlier there

/-- **The loop fires a slot past all it fired before.** -/
theorem paced_fire {sinceNs targetNs : Nanos} (paced : Paced config startNs life)
    (stands : life.loop = .parked sinceNs targetNs) (due : targetNs ≤ life.nowNs) :
    Paced config startNs { life with
      loop := .cycling (Grid.slotAt config.interval.ns life.nowNs)
      calls := life.calls ++ [⟨Grid.slotAt config.interval.ns life.nowNs, life.nowNs⟩] } := by
  have positive := config.interval.positive
  have standing := paced.standing
  rw [stands] at standing
  obtain ⟨rfl, since, before⟩ := standing
  have target : Grid.nextSlot config.interval.ns sinceNs ≤
      Grid.slotAt config.interval.ns life.nowNs :=
    (Grid.le_slotAt_iff positive Grid.dvd_nextSlot).mpr due
  have ahead : sinceNs < Grid.slotAt config.interval.ns life.nowNs :=
    (Grid.lt_nextSlot positive).trans_le target
  have upTo : Grid.slotAt config.interval.ns life.nowNs ≤ life.nowNs := Grid.slotAt_le positive
  refine { paced with
    increasing := increasing_append paced.increasing fun call there =>
      (before call there).trans_lt ahead
    onGrid := ?_
    reached := ?_
    standing := ⟨Grid.dvd_slotAt, since.trans_lt ahead, by simp, ?_⟩ }
  all_goals
    intro call member
    rcases List.mem_append.mp member with old | new
  · exact paced.onGrid call old
  · rw [List.mem_singleton.mp new]
    exact ⟨Grid.dvd_slotAt, since.trans_lt ahead, upTo⟩
  · exact paced.reached call old
  · rw [List.mem_singleton.mp new]
    exact upTo
  · exact ((before call old).trans_lt ahead).le
  · rw [List.mem_singleton.mp new]

theorem paced_deliver {gate : WakeGate} {wake : Wake} (paced : Paced config startNs life)
    (called : life.gate.onWake config.strategyId (some config.interval.ns) life.nowNs wake =
      (gate, true)) :
    Paced config startNs { life with
      gate := gate, woken := life.woken ++ [⟨wake.tsEvent, life.nowNs⟩] } := by
  obtain ⟨rfl, notAhead, fresh, newer⟩ := onWake_called called
  have past : ∀ earlier ∈ life.woken, earlier.slot < wake.tsEvent := by
    intro earlier there
    obtain ⟨last, known, upTo⟩ := paced.remembers earlier there
    exact upTo.trans_lt (newer last known)
  refine { paced with
    wokenIncreasing := increasing_append paced.wokenIncreasing past
    wokenFresh := ?_
    remembers := ?_ }
  all_goals
    intro call member
    rcases List.mem_append.mp member with old | new
  · exact paced.wokenFresh call old
  · rw [List.mem_singleton.mp new]
    exact ⟨notAhead, fresh⟩
  · exact ⟨_, rfl, (past call old).le⟩
  · rw [List.mem_singleton.mp new]
    exact ⟨_, rfl, le_refl _⟩

/-- **Every move keeps the calls in order and on the grid**, however long a cycle
takes. -/
theorem paced_step {move : WakingMove} (paced : Paced config startNs life)
    (moved : (waking config).step life move = some after) : Paced config startNs after := by
  obtain ⟨ns, rfl, rfl⟩ | ⟨sinceNs, targetNs, rfl, stands, due, rfl⟩ | ⟨slot, rfl, stands, rfl⟩ |
    ⟨wake, gate, rfl, ⟨called, rfl⟩ | ⟨rfl, rfl⟩⟩ := waking_cases moved
  · have onward : life.nowNs ≤ life.nowNs + ns := by linarith [Int.natCast_nonneg ns]
    exact { paced with
      started := paced.started.trans onward
      reached := fun call there => (paced.reached call there).trans onward }
  · exact paced_fire paced stands due
  · exact { paced with standing := ⟨rfl, paced.started, paced.reached⟩ }
  · exact paced_deliver paced called
  · exact paced

/-! ## When the latest slot was fired -/

/-- The latest slot of the clock reading `nowNs`, if it is after the start, was
fired. -/
def LatestFired (config : WakeConfig) (startNs : Nanos) (calls : List SlotCall) (nowNs : Nanos) :
    Prop :=
  startNs < Grid.slotAt config.interval.ns nowNs →
    Grid.slotAt config.interval.ns nowNs ∈ calls.map SlotCall.slot

/-- **A park leaves the latest slot behind exactly when the cycle saw it come.** -/
theorem parks_late_iff {slot : Nanos} (paced : Paced config startNs life)
    (stands : life.loop = .cycling slot) :
    LatestFired config startNs life.calls life.nowNs ↔
      Grid.slotAt config.interval.ns life.nowNs = slot := by
  have positive := config.interval.positive
  have standing := paced.standing
  rw [stands] at standing
  obtain ⟨aligned, after, fired, upTo⟩ := standing
  obtain ⟨call, there, named⟩ := List.mem_map.mp fired
  have reached : slot ≤ Grid.slotAt config.interval.ns life.nowNs :=
    (Grid.le_slotAt_iff positive aligned).mpr (named ▸ paced.reached call there)
  constructor
  · intro latest
    obtain ⟨last, member, same⟩ := List.mem_map.mp (latest (after.trans_le reached))
    exact le_antisymm (same ▸ upTo last member) reached
  · intro same _
    rwa [same]

/-- The loop has missed no slot: the cycle under way is the latest one's, or the
latest one was fired when the loop parked. -/
def CaughtUp (config : WakeConfig) (startNs : Nanos) (life : Waking) : Prop :=
  match life.loop with
  | .cycling slot => Grid.slotAt config.interval.ns life.nowNs = slot
  | .parked sinceNs _ => LatestFired config startNs life.calls sinceNs

theorem caughtUp_start : CaughtUp config startNs (Waking.start config startNs) := by
  intro after
  exact absurd (Grid.slotAt_le config.interval.positive) after.not_ge

theorem caughtUp_step {move : WakingMove} (paced : Paced config startNs life)
    (caughtUp : CaughtUp config startNs life) (inTime : CyclesInTime config life move)
    (moved : (waking config).step life move = some after) : CaughtUp config startNs after := by
  obtain ⟨ns, rfl, rfl⟩ | ⟨sinceNs, targetNs, rfl, stands, due, rfl⟩ | ⟨slot, rfl, stands, rfl⟩ |
    ⟨wake, gate, rfl, ⟨called, rfl⟩ | ⟨rfl, rfl⟩⟩ := waking_cases moved
  · cases stands : life.loop with
    | parked sinceNs targetNs => simpa only [CaughtUp, stands] using caughtUp
    | cycling slot =>
        simp only [CaughtUp, stands] at caughtUp ⊢
        rw [inTime slot stands]
        exact caughtUp
  · rfl
  · simp only [CaughtUp, stands] at caughtUp
    exact (parks_late_iff paced stands).mpr caughtUp
  · exact caughtUp
  · exact caughtUp

/-- **Every slot is fired at most once, and the latest one reached is not missed**,
in every run in which no slot is reached while a cycle is under way. -/
theorem wakes_once {moves : List WakingMove}
    (inTime : (waking config).Meets (CyclesInTime config) (Waking.start config startNs) moves)
    (ran : (waking config).run (Waking.start config startNs) moves = some life) :
    WakesOnce config startNs life := by
  obtain ⟨paced, caughtUp⟩ := Machine.run_induct_of (CyclesInTime config)
    (fun life => Paced config startNs life ∧ CaughtUp config startNs life)
    (fun kept safe moved => ⟨paced_step kept.1 moved, caughtUp_step kept.1 kept.2 safe moved⟩)
    ⟨paced_start, caughtUp_start⟩ inTime ran
  refine ⟨paced.increasing, fun call there => ?_, ?_, paced.wokenIncreasing, paced.wokenFresh⟩
  · obtain ⟨aligned, after, upTo⟩ := paced.onGrid call there
    exact ⟨aligned, after, fun epoch => epoch.trans_lt after, upTo⟩
  · intro sinceNs targetNs slot stands aligned after upTo largest
    have positive := config.interval.positive
    simp only [CaughtUp, stands] at caughtUp
    have latest : Grid.slotAt config.interval.ns sinceNs = slot :=
      le_antisymm (largest _ Grid.dvd_slotAt (Grid.slotAt_le positive))
        ((Grid.le_slotAt_iff positive aligned).mpr upTo)
    exact latest ▸ caughtUp (latest ▸ after)

/-! ## Sample lives -/

namespace Sample

/-- An interval of ten. -/
def everyTen : WakeConfig := ⟨⟨"waker", by decide⟩, ⟨10, by decide⟩⟩

def wakeAt (slot : Nanos) : Wake := ⟨slot, slot, everyTen.strategyId⟩

/-- A jump over one slot fires the one after it, and a redelivery is dropped. -/
def prompt : List WakingMove :=
  [.pass 25, .fire, .deliver (wakeAt 20), .pass 3, .park, .deliver (wakeAt 20), .pass 4, .fire,
    .deliver (wakeAt 30), .park]

/-- The first cycle is still under way at the second slot. -/
def slow : List WakingMove := [.pass 10, .fire, .pass 15, .park]

def cyclesInTime (life : Waking) : WakingMove → Bool
  | .pass ns => match life.loop with
      | .cycling _ => Grid.slotAt everyTen.interval.ns (life.nowNs + ns) =
          Grid.slotAt everyTen.interval.ns life.nowNs
      | .parked _ _ => true
  | .fire | .park | .deliver _ => true

theorem cyclesInTime_sound (life : Waking) (move : WakingMove)
    (inTime : cyclesInTime life move = true) : CyclesInTime everyTen life move := by
  cases move with
  | pass ns =>
      intro slot stands
      simpa [cyclesInTime, stands] using inTime
  | _ => trivial

theorem wakes_once_prompt : ∃ life,
    (waking everyTen).run (Waking.start everyTen 0) prompt = some life ∧
      life.calls = [⟨20, 25⟩, ⟨30, 32⟩] ∧ life.woken = [⟨20, 25⟩, ⟨30, 32⟩] ∧
      WakesOnce everyTen 0 life := by
  have ended : ((waking everyTen).run (Waking.start everyTen 0) prompt).map
      (fun life => (life.calls, life.woken)) =
        some ([⟨20, 25⟩, ⟨30, 32⟩], [⟨20, 25⟩, ⟨30, 32⟩]) := by decide +kernel
  obtain ⟨life, ran, logs⟩ := Option.map_eq_some_iff.mp ended
  have inTime := Machine.meets_of_checks cyclesInTime_sound
    (by decide +kernel :
      (waking everyTen).checks cyclesInTime (Waking.start everyTen 0) prompt = true)
  exact ⟨life, ran, (Prod.mk.inj logs).1, (Prod.mk.inj logs).2, wakes_once inTime ran⟩

/-- **The second slot is missed**: at 25 the loop parks until 30, and 20 was never
fired. -/
theorem second_slot_missed : ∃ life,
    (waking everyTen).run (Waking.start everyTen 0) slow = some life ∧
      ¬WakesOnce everyTen 0 life := by
  have ended : ((waking everyTen).run (Waking.start everyTen 0) slow).map
      (fun life => (life.loop, life.calls)) = some (.parked 25 30, [⟨10, 10⟩]) := by
    decide +kernel
  obtain ⟨life, ran, logs⟩ := Option.map_eq_some_iff.mp ended
  obtain ⟨stands, calls⟩ := Prod.mk.inj logs
  refine ⟨life, ran, fun promised => ?_⟩
  have missed := promised.latest 25 30 20 stands ⟨2, rfl⟩ (by decide) (by decide)
    (by
      rintro other ⟨k, rfl⟩ upTo
      show 10 * k ≤ 20
      have : 10 * k ≤ 25 := upTo
      omega)
  rw [calls] at missed
  simp at missed

end Sample

end Tickwright.Engine
