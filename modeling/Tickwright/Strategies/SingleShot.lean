/-
# Strategies.SingleShot -- the reference strategies, one order in all their lives

`SingleShotMarketStrategy` places one market order on its first tick and keeps one flag.
`SingleShotLimitStrategy` places one limit order, and may cancel it on the first wake at
or past a deadline that its placing tick set.  Both keep what they did in their snapshot
and leave the rest to the host.

* `SendsOnce` is what a strategy's code must do for this: a callback that sends spends
  what allowed it to, for good;
* `SendsOnce.published` turns it into a fact about histories: two sendings on one history
  are one;
* `market_once` and `limit_once` put it on the host: whatever crashes, restarts and
  re-deliveries there were, on either bus, the engine acted on one placement of such a
  strategy at most, and on one cancel, of that placement and no sooner than its deadline.

A strategy may be kept by the host in a wider state than its own (`Implements`).
-/
import Mathlib.Data.PNat.Basic
import Tickwright.Domain.Emitter
import Tickwright.Engine.SnapshotFirst

namespace Tickwright.Strategies

open Tickwright.Domain Tickwright.Theory Tickwright.Engine Tickwright.Engine.Host

set_option autoImplicit false

/-! ## Sending once -/

section Once

variable {State Inner Input Signal Bytes Data : Type}

/-- The last of these callbacks published this. -/
def Published (code : StrategyCode State Input Signal Bytes) (lived : List (Callback Input))
    (signal : Signal) : Prop :=
  ∃ earlier call, lived = earlier ++ [call] ∧
    signal ∈ (code.callback (code.replay earlier) call.event call.input).signals

/-- A callback sends a signal of this kind only while armed, one at most, and disarms for
good. -/
structure SendsOnce (code : StrategyCode State Input Signal Bytes) (kind : Signal → Prop)
    (armed : State → Prop) : Prop where
  one : ∀ state event input, ∀ first ∈ (code.callback state event input).signals,
    ∀ second ∈ (code.callback state event input).signals, kind first → kind second → first = second
  spends : ∀ state event input, ∀ signal ∈ (code.callback state event input).signals,
    kind signal → armed state ∧ ¬ armed (code.callback state event input).state
  stays : ∀ state event input, ¬ armed state → ¬ armed (code.callback state event input).state

/-- One strategy behaves as another, whose state is a view of its own. -/
structure Implements (code : StrategyCode State Input Signal Bytes)
    (other : StrategyCode Inner Input Signal Data) (view : State → Inner) : Prop where
  blank : view code.blank = other.blank
  state : ∀ state event input,
    view (code.callback state event input).state = (other.callback (view state) event input).state
  signals : ∀ state event input,
    (code.callback state event input).signals = (other.callback (view state) event input).signals

variable {code : StrategyCode State Input Signal Bytes} {other : StrategyCode Inner Input Signal Data}
  {view : State → Inner} {kind : Signal → Prop} {armed : State → Prop}

theorem Implements.replay (same : Implements code other view) (lived : List (Callback Input)) :
    view (code.replay lived) = other.replay lived := by
  induction lived using List.reverseRecOn with
  | nil => exact same.blank
  | append_singleton earlier call ih =>
      rw [StrategyCode.replay_concat, StrategyCode.replay_concat, same.state, ih]

theorem Implements.published (same : Implements code other view) {lived : List (Callback Input)}
    {signal : Signal} (published : Published code lived signal) : Published other lived signal := by
  obtain ⟨earlier, call, is, sent⟩ := published
  refine ⟨earlier, call, is, ?_⟩
  rw [← same.replay, ← same.signals]
  exact sent

theorem SendsOnce.disarmed (once : SendsOnce code kind armed) {lived : List (Callback Input)}
    (spent : ¬ armed (code.replay lived)) (more : List (Callback Input)) :
    ¬ armed (code.replay (lived ++ more)) := by
  induction more using List.reverseRecOn with
  | nil => rwa [List.append_nil]
  | append_singleton earlier call ih =>
      rw [← List.append_assoc, StrategyCode.replay_concat]
      exact once.stays _ _ _ ih

/-- On one history the earlier of two sendings is the later. -/
theorem SendsOnce.earlier (once : SendsOnce code kind armed) {lived later : List (Callback Input)}
    {first second : Signal} (published : Published code lived first)
    (again : Published code later second) (firstKind : kind first) (secondKind : kind second)
    (before : lived <+: later) : lived = later := by
  obtain ⟨earlier, call, rfl, sent⟩ := published
  obtain ⟨since, sending, rfl, sentAgain⟩ := again
  rcases List.prefix_concat_iff.mp before with same | within
  · exact same
  · exfalso
    obtain ⟨more, rfl⟩ := within
    have spent : ¬ armed (code.replay (earlier ++ [call])) := by
      rw [StrategyCode.replay_concat]
      exact (once.spends _ _ _ first sent firstKind).2
    exact once.disarmed spent more (once.spends _ _ _ second sentAgain secondKind).1

/-- **Two sendings on one history are one.** -/
theorem SendsOnce.published (once : SendsOnce code kind armed)
    {whole lived later : List (Callback Input)} {first second : Signal}
    (published : Published code lived first) (again : Published code later second)
    (firstKind : kind first) (secondKind : kind second) (one : lived <+: whole)
    (two : later <+: whole) : lived = later ∧ first = second := by
  have same : lived = later := by
    rcases List.prefix_or_prefix_of_prefix one two with before | after
    · exact once.earlier published again firstKind secondKind before
    · exact (once.earlier again published secondKind firstKind after).symm
  subst same
  refine ⟨rfl, ?_⟩
  obtain ⟨earlier, call, is, sent⟩ := published
  obtain ⟨since, sending, isToo, sentAgain⟩ := again
  obtain ⟨rfl, rfl⟩ := List.append_singleton_inj.mp (is.symm.trans isToo)
  exact once.one _ _ _ first sent second sentAgain firstKind secondKind

/-- What the engine acted on was published by a callback its sender's row went through. -/
theorem acted_published [DecidableEq Bytes] {config : EngineConfig State Input Signal Bytes}
    {bus : BusKind} {moves : List (HostMove Input Signal)} {life : HostLife State Input Signal Bytes}
    (ran : (hostMachine config).run (HostLife.fresh config bus) moves = some life)
    {strategyId : StrategyId} (same : Implements (config.code strategyId) other view)
    {sent : Sent Input Signal} (acted : sent ∈ life.sagas) (its : sent.strategyId = strategyId) :
    Published other sent.lived sent.signal ∧ sent.lived <+: (life.rows strategyId).lived := by
  subst its
  have saved := (remembers_run (fresh_remembers config bus) ran).sagas sent acted
  exact ⟨same.published saved.genuine, saved.row⟩

end Once

/-! ## What a callback reads -/

/-- The emitter's counter, and how the write of the seq it takes ends. -/
structure EmitterInput where
  nextSeq : ℕ
  recorded : Ended := .returned
deriving DecidableEq

/-- One verb of the strategy's emitter: the seq is recorded, then the signal published. -/
def emits (strategyId : StrategyId) (input : EmitterInput) (verb : EmitterVerb) :
    Option Signal × Ended :=
  match (SignalEmitter.mk strategyId input.nextSeq).emit verb, input.recorded with
  -- A `ValueError`.
  | .error _, _ => (none, .raised)
  | .ok (signal, _), .returned => (some signal, .returned)
  | .ok _, ended => (none, ended)

/-! ## `SingleShotMarketStrategy` -/

structure MarketSettings where
  side : Side
  quantity : Decimal

/-- What its `snapshot` dumps. -/
structure MarketSnapshot where
  version : ℤ := 1
  fired : Bool
deriving DecidableEq

/-- Buys or sells a fixed quantity at market, once, on the first tick seen.  The state is
`_fired`. -/
def singleShotMarket (strategyId : StrategyId) (settings : MarketSettings) :
    StrategyCode Bool EmitterInput Signal MarketSnapshot where
  blank := false
  callback fired event input :=
    match event with
    | .tick tick =>
        if fired then { state := fired }
        else
          let (signal, ended) := emits strategyId input
            (.place tick.symbol settings.side settings.quantity .market .ioc none false false)
          { state := true, signals := signal.toList, ended := ended }
    | .orderEvent _ | .wake _ => { state := fired }
  snapshot fired := { fired := fired }
  -- An unknown version raises, and the strategy starts fresh.
  restore data := if data.version ≠ 1 then false else data.fired
  restores _ := rfl

/-! ## `SingleShotLimitStrategy` -/

structure LimitSettings where
  side : Side
  quantity : Decimal
  price : Decimal
  timeInForce : TimeInForce := .gtc
  postOnly : Bool := false
  cancelAfterSeconds : Option ℕ+ := none

structure LimitState where
  placedSignalId : Option SignalId := none
  symbol : Option Symbol := none
  deadlineNs : Option Nanos := none
  cancelled : Bool := false
deriving DecidableEq

/-- What its `snapshot` dumps. -/
structure LimitSnapshot where
  version : ℤ := 2
  state : LimitState
deriving DecidableEq

/-- The deadline a placing tick sets. -/
def LimitSettings.deadline (settings : LimitSettings) (tick : Feed.MarketTick) : Option Nanos :=
  settings.cancelAfterSeconds.map fun seconds : ℕ+ => tick.tsEvent + (seconds : ℕ) * 1000000000

/-- `_place`. -/
def limitPlace (strategyId : StrategyId) (settings : LimitSettings) (state : LimitState)
    (tick : Feed.MarketTick) (input : EmitterInput) : Called LimitState Signal :=
  let state := { state with
    symbol := some tick.symbol
    deadlineNs := (settings.deadline tick).or state.deadlineNs }
  match emits strategyId input (.place tick.symbol settings.side settings.quantity .limit
      settings.timeInForce (some settings.price) settings.postOnly false) with
  | (some signal, ended) =>
      { state := { state with placedSignalId := some signal.signalId }
        signals := [signal]
        ended := ended }
  | (none, ended) => { state := state, ended := ended }

/-- `on_wake`. -/
def limitWake (strategyId : StrategyId) (state : LimitState) (wake : Wake) (input : EmitterInput) :
    Called LimitState Signal :=
  match state.deadlineNs with
  | none => { state := state }
  | some deadlineNs =>
      if state.cancelled ∨ wake.tsEvent < deadlineNs then { state := state }
      else
        match state.placedSignalId, state.symbol with
        | some placed, some symbol =>
            let (signal, ended) := emits strategyId input (.cancel symbol placed)
            { state := { state with cancelled := true }, signals := signal.toList, ended := ended }
        -- `cancel path reached before a signal was placed`
        | _, _ => { state := state, ended := .violated }

/-- Places one resting limit order on the first tick; optionally cancels it later. -/
def singleShotLimit (strategyId : StrategyId) (settings : LimitSettings) :
    StrategyCode LimitState EmitterInput Signal LimitSnapshot where
  blank := {}
  callback state event input :=
    match event with
    | .tick tick =>
        match state.placedSignalId with
        | none => limitPlace strategyId settings state tick input
        | some _ => { state := state }
    | .wake wake => limitWake strategyId state wake input
    | .orderEvent _ => { state := state }
  snapshot state := { state := state }
  restore data := if data.version ≠ 2 then {} else data.state
  restores _ := rfl

/-! ## The market strategy -/

section Market

variable {strategyId : StrategyId} {settings : MarketSettings}

/-- What an emitter sends is the signal its verb builds. -/
theorem emits_some {input : EmitterInput} {verb : EmitterVerb} {signal : Signal} {ended : Ended}
    (emitted : emits strategyId input verb = (some signal, ended)) :
    ended = .returned ∧ ∃ moved,
      (SignalEmitter.mk strategyId input.nextSeq).emit verb = .ok (signal, moved) := by
  unfold emits at emitted
  split at emitted
  · cases emitted
  · rename_i moved built _
    cases emitted
    exact ⟨rfl, moved, built⟩
  · cases emitted

theorem market_callback {fired : Bool} {event : Routed} {input : EmitterInput} {signal : Signal}
    (sent : signal ∈ ((singleShotMarket strategyId settings).callback fired event input).signals) :
    fired = false ∧ ((singleShotMarket strategyId settings).callback fired event input).state = true ∧
      ∃ tick seq, event = .tick tick ∧
        ((singleShotMarket strategyId settings).callback fired event input).signals = [signal] ∧
        signal = .place
          { strategyId := strategyId
            symbol := tick.symbol
            seq := seq
            side := settings.side
            quantity := settings.quantity
            orderType := .market
            timeInForce := .ioc } := by
  cases event with
  | orderEvent event => cases sent
  | wake wake => cases sent
  | tick tick =>
      cases fired with
      | true => cases sent
      | false =>
          refine ⟨rfl, rfl, tick, input.nextSeq, rfl, ?_⟩
          have callback : ((singleShotMarket strategyId settings).callback false (.tick tick)
              input).signals = (emits strategyId input (.place tick.symbol settings.side
                settings.quantity .market .ioc none false false)).1.toList := rfl
          rw [callback] at sent ⊢
          generalize emitted : emits strategyId input _ = result at sent ⊢
          obtain ⟨built, ended⟩ := result
          cases built with
          | none => cases sent
          | some built =>
              rw [Option.toList_some, List.mem_singleton] at sent
              subst sent
              obtain ⟨-, moved, is⟩ := emits_some emitted
              cases is
              exact ⟨rfl, rfl⟩

/-- **The market strategy sends one signal.** -/
theorem market_sendsOnce :
    SendsOnce (singleShotMarket strategyId settings) (fun _ => True) (fun fired => fired = false) where
  one state event input first sent second sentToo _ _ := by
    obtain ⟨-, -, -, -, -, whole, -⟩ := market_callback sent
    rw [whole, List.mem_singleton] at sentToo
    exact sentToo.symm
  spends state event input signal sent _ := by
    obtain ⟨armed, spent, -⟩ := market_callback sent
    exact ⟨armed, by rw [spent]; decide⟩
  stays state event input fired := by
    have fired : state = true := by simpa using fired
    subst fired
    cases event with
    | tick | orderEvent | wake =>
        show ¬ (true = false)
        decide

variable {State Bytes : Type} [DecidableEq Bytes]
  {config : EngineConfig State EmitterInput Signal Bytes} {bus : BusKind}
  {moves : List (HostMove EmitterInput Signal)} {life : HostLife State EmitterInput Signal Bytes}
  {view : State → Bool}

/-- **A single-shot market strategy has one order in all its lives**: any two of its
signals that the engine acted on are one, and it is a market order of its settings. -/
theorem market_once
    (same : Implements (config.code strategyId) (singleShotMarket strategyId settings) view)
    (ran : (hostMachine config).run (HostLife.fresh config bus) moves = some life) :
    (∀ first ∈ life.sagas, ∀ second ∈ life.sagas, first.strategyId = strategyId →
      second.strategyId = strategyId → first = second) ∧
    ∀ sent ∈ life.sagas, sent.strategyId = strategyId → ∃ symbol seq, sent.signal = .place
      { strategyId := strategyId
        symbol := symbol
        seq := seq
        side := settings.side
        quantity := settings.quantity
        orderType := .market
        timeInForce := .ioc } := by
  constructor
  · intro first acted second actedToo its itsToo
    obtain ⟨published, one⟩ := acted_published ran same acted its
    obtain ⟨again, two⟩ := acted_published ran same actedToo itsToo
    obtain ⟨lived, signal⟩ := market_sendsOnce.published published again trivial trivial one two
    cases first
    cases second
    simp only at its itsToo lived signal
    rw [its, itsToo, lived, signal]
  · intro sent acted its
    obtain ⟨⟨_, _, _, among⟩, -⟩ := acted_published ran same acted its
    obtain ⟨-, -, tick, seq, -, -, is⟩ := market_callback among
    exact ⟨tick.symbol, seq, is⟩

end Market

/-! ## The limit strategy -/

section Limit

variable {strategyId : StrategyId} {settings : LimitSettings}

def IsPlace (signal : Signal) : Prop := ∃ place, signal = .place place

def IsCancel (signal : Signal) : Prop := ∃ cancel, signal = .cancel cancel

/-- What one callback of the limit strategy does: nothing but note a tick it could not
place on, place, cancel, or end. -/
inductive LimitStep (strategyId : StrategyId) (settings : LimitSettings) (state : LimitState) :
    Routed → Called LimitState Signal → Prop
  | stays {event : Routed} {ended : Ended} :
      LimitStep strategyId settings state event { state := state, ended := ended }
  | noted {tick : Feed.MarketTick} {ended : Ended} (unplaced : state.placedSignalId = none) :
      LimitStep strategyId settings state (.tick tick)
        { state := { state with
            symbol := some tick.symbol
            deadlineNs := (settings.deadline tick).or state.deadlineNs }
          ended := ended }
  | places {tick : Feed.MarketTick} {place : PlaceSignal} (unplaced : state.placedSignalId = none)
      (symbol : place.symbol = tick.symbol) :
      LimitStep strategyId settings state (.tick tick)
        { state := { state with
            symbol := some tick.symbol
            deadlineNs := (settings.deadline tick).or state.deadlineNs
            placedSignalId := some place.signalId }
          signals := [.place place] }
  | cancels {wake : Wake} {deadlineNs : Nanos} {placed : SignalId} {symbol : Symbol} {seq : ℕ}
      (deadline : state.deadlineNs = some deadlineNs) (due : deadlineNs ≤ wake.tsEvent)
      (pending : state.cancelled = false) (is : state.placedSignalId = some placed)
      (on : state.symbol = some symbol) :
      LimitStep strategyId settings state (.wake wake)
        { state := { state with cancelled := true }
          signals := [.cancel ⟨strategyId, symbol, seq, placed⟩] }
  | givesUp {wake : Wake} {ended : Ended} (pending : state.cancelled = false) :
      LimitStep strategyId settings state (.wake wake)
        { state := { state with cancelled := true }, ended := ended }

theorem limit_step (state : LimitState) (event : Routed) (input : EmitterInput) :
    LimitStep strategyId settings state event
      ((singleShotLimit strategyId settings).callback state event input) := by
  cases event with
  | orderEvent event => exact .stays
  | tick tick =>
      show LimitStep _ _ _ _ (match state.placedSignalId with
        | none => limitPlace strategyId settings state tick input
        | some _ => { state := state })
      cases unplaced : state.placedSignalId with
      | some placed => exact .stays
      | none =>
          simp only [limitPlace]
          split
          · rename_i signal ended emitted
            obtain ⟨rfl, moved, is⟩ := emits_some emitted
            cases is
            exact .places unplaced rfl
          · exact .noted unplaced
  | wake wake =>
      show LimitStep _ _ _ _ (limitWake strategyId state wake input)
      unfold limitWake
      split
      · exact .stays
      · rename_i deadlineNs deadline
        split
        · exact .stays
        · rename_i due
          rw [not_or, not_lt, Bool.not_eq_true] at due
          split
          · rename_i placed symbol is on
            generalize emitted : emits strategyId input _ = result
            obtain ⟨built, ended⟩ := result
            cases built with
            | none => exact .givesUp due.1
            | some signal =>
                obtain ⟨rfl, moved, built⟩ := emits_some emitted
                cases built
                exact .cancels deadline due.2 due.1 is on
          · exact .stays

/-- **The limit strategy places once.** -/
theorem limit_places :
    SendsOnce (singleShotLimit strategyId settings) IsPlace
      (fun state => state.placedSignalId = none) where
  one state event input := by
    have step : LimitStep strategyId settings _ _ _ := limit_step state event input
    generalize (singleShotLimit strategyId settings).callback state event input = called at step ⊢
    intro first sent second sentToo _ _
    cases step with
    | stays | noted _ | givesUp _ => cases sent
    | places _ _ | cancels _ _ _ _ _ =>
        exact (List.mem_singleton.mp sent).trans (List.mem_singleton.mp sentToo).symm
  spends state event input := by
    have step : LimitStep strategyId settings _ _ _ := limit_step state event input
    generalize (singleShotLimit strategyId settings).callback state event input = called at step ⊢
    intro signal sent kind
    cases step with
    | stays | noted _ | givesUp _ => cases sent
    | places unplaced _ => exact ⟨unplaced, nofun⟩
    | cancels _ _ _ _ _ =>
        obtain ⟨place, rfl⟩ := kind
        cases List.mem_singleton.mp sent
  stays state event input := by
    have step : LimitStep strategyId settings _ _ _ := limit_step state event input
    generalize (singleShotLimit strategyId settings).callback state event input = called at step ⊢
    intro spent
    cases step with
    | stays | cancels _ _ _ _ _ | givesUp _ => exact spent
    | noted unplaced | places unplaced _ => exact absurd unplaced spent

/-- **And cancels once.** -/
theorem limit_cancels :
    SendsOnce (singleShotLimit strategyId settings) IsCancel
      (fun state => state.cancelled = false) where
  one state event input := by
    have step : LimitStep strategyId settings _ _ _ := limit_step state event input
    generalize (singleShotLimit strategyId settings).callback state event input = called at step ⊢
    intro first sent second sentToo _ _
    cases step with
    | stays | noted _ | givesUp _ => cases sent
    | places _ _ | cancels _ _ _ _ _ =>
        exact (List.mem_singleton.mp sent).trans (List.mem_singleton.mp sentToo).symm
  spends state event input := by
    have step : LimitStep strategyId settings _ _ _ := limit_step state event input
    generalize (singleShotLimit strategyId settings).callback state event input = called at step ⊢
    intro signal sent kind
    cases step with
    | stays | noted _ | givesUp _ => cases sent
    | places _ _ =>
        obtain ⟨cancel, rfl⟩ := kind
        cases List.mem_singleton.mp sent
    | cancels _ _ pending _ _ => exact ⟨pending, nofun⟩
  stays state event input := by
    have step : LimitStep strategyId settings _ _ _ := limit_step state event input
    generalize (singleShotLimit strategyId settings).callback state event input = called at step ⊢
    intro spent
    cases step with
    | stays | noted _ | places _ _ => exact spent
    | cancels _ _ pending _ _ | givesUp pending => exact absurd pending spent

/-- A placement and the tick it was made on. -/
structure PlacedOn (strategyId : StrategyId) (settings : LimitSettings)
    (lived : List (Callback EmitterInput)) (tick : Feed.MarketTick) (place : PlaceSignal) : Prop where
  published : Published (singleShotLimit strategyId settings) lived (.place place)
  last : ∃ earlier input, lived = earlier ++ [⟨.tick tick, input⟩]
  symbol : place.symbol = tick.symbol

/-- The state is of the placement it names. -/
structure LimitSound (strategyId : StrategyId) (settings : LimitSettings)
    (lived : List (Callback EmitterInput)) (state : LimitState) : Prop where
  undated : settings.cancelAfterSeconds = none → state.deadlineNs = none
  placed : ∀ placed, state.placedSignalId = some placed → ∃ made tick place, made <+: lived ∧
    PlacedOn strategyId settings made tick place ∧ place.signalId = placed ∧
    state.symbol = some tick.symbol ∧ state.deadlineNs = settings.deadline tick

theorem deadline_undated {state : LimitState} {tick : Feed.MarketTick}
    (undated : settings.cancelAfterSeconds = none → state.deadlineNs = none) :
    (settings.deadline tick).or state.deadlineNs = settings.deadline tick := by
  unfold LimitSettings.deadline
  cases after : settings.cancelAfterSeconds with
  | none => exact undated after
  | some seconds => rfl

/-- **In every history the state is of the placement it names.** -/
theorem limit_sound (lived : List (Callback EmitterInput)) :
    LimitSound strategyId settings lived ((singleShotLimit strategyId settings).replay lived) := by
  induction lived using List.reverseRecOn with
  | nil => exact ⟨fun _ => rfl, fun _ none_ => by cases none_⟩
  | append_singleton earlier call ih =>
      obtain ⟨event, input⟩ := call
      rw [StrategyCode.replay_concat]
      have step : LimitStep strategyId settings _ _ _ := limit_step
        ((singleShotLimit strategyId settings).replay earlier) event input
      generalize is : (singleShotLimit strategyId settings).callback
        ((singleShotLimit strategyId settings).replay earlier) event input = called at step ⊢
      have before : earlier <+: earlier ++ [⟨event, input⟩] := List.prefix_append _ _
      have kept : ∀ placed, ((singleShotLimit strategyId settings).replay earlier).placedSignalId =
          some placed → ∃ made tick place, made <+: earlier ++ [⟨event, input⟩] ∧
            PlacedOn strategyId settings made tick place ∧ place.signalId = placed ∧
            ((singleShotLimit strategyId settings).replay earlier).symbol = some tick.symbol ∧
            ((singleShotLimit strategyId settings).replay earlier).deadlineNs =
              settings.deadline tick := by
        intro placed named
        obtain ⟨made, tick, place, within, rest⟩ := ih.placed placed named
        exact ⟨made, tick, place, within.trans before, rest⟩
      cases step with
      | stays | cancels _ _ _ _ _ | givesUp _ => exact ⟨ih.undated, kept⟩
      | noted unplaced =>
          refine ⟨fun undated => ?_, fun placed named => ?_⟩
          · rw [deadline_undated ih.undated]
            unfold LimitSettings.deadline
            rw [undated]
            rfl
          · rw [unplaced] at named
            cases named
      | @places tick place unplaced symbol =>
          have dated : (settings.deadline tick).or _ = _ := deadline_undated ih.undated
          refine ⟨fun undated => ?_, fun placed named => ?_⟩
          · rw [dated]
            unfold LimitSettings.deadline
            rw [undated]
            rfl
          · cases named
            refine ⟨_, tick, place, List.prefix_refl _, ⟨⟨earlier, _, rfl, ?_⟩, ?_, symbol⟩, rfl, rfl,
              dated⟩
            · rw [is]
              exact List.mem_singleton.mpr rfl
            · exact ⟨earlier, input, rfl⟩

/-- A cancel, and the placement it is of. -/
structure CancelOf (strategyId : StrategyId) (settings : LimitSettings)
    (lived : List (Callback EmitterInput)) (cancel : CancelSignal) (place : PlaceSignal) : Prop where
  target : cancel.targetSignalId = place.signalId
  symbol : cancel.symbol = place.symbol
  /-- It was placed before, and the deadline its tick set is past. -/
  due : ∃ made tick, ∃ seconds : ℕ+, ∃ earlier wake input,
    PlacedOn strategyId settings made tick place ∧ made <+: earlier ∧
    lived = earlier ++ [⟨.wake wake, input⟩] ∧ settings.cancelAfterSeconds = some seconds ∧
    tick.tsEvent + (seconds : ℕ) * 1000000000 ≤ wake.tsEvent

theorem cancel_of {lived : List (Callback EmitterInput)} {cancel : CancelSignal}
    (published : Published (singleShotLimit strategyId settings) lived (.cancel cancel)) :
    ∃ place, CancelOf strategyId settings lived cancel place := by
  obtain ⟨earlier, ⟨event, input⟩, rfl, sent⟩ := published
  have sound : LimitSound strategyId settings _ _ := limit_sound earlier
  have step : LimitStep strategyId settings _ _ _ := limit_step
    ((singleShotLimit strategyId settings).replay earlier) event input
  simp only at sent
  generalize (singleShotLimit strategyId settings).callback
    ((singleShotLimit strategyId settings).replay earlier) event input = called at step sent
  cases step with
  | stays | noted _ | givesUp _ => cases sent
  | places _ _ => cases List.mem_singleton.mp sent
  | @cancels wake deadlineNs placed symbol seq deadline due _ is on =>
      cases List.mem_singleton.mp sent
      obtain ⟨made, tick, place, within, placedOn, rfl, symbolIs, deadlineIs⟩ := sound.placed placed is
      refine ⟨place, rfl, ?_, ?_⟩
      · rw [on] at symbolIs
        cases symbolIs
        exact placedOn.symbol.symm
      · rw [deadline] at deadlineIs
        unfold LimitSettings.deadline at deadlineIs
        obtain ⟨seconds, after, rfl⟩ := Option.map_eq_some_iff.mp deadlineIs.symm
        exact ⟨made, tick, seconds, earlier, wake, input, placedOn, within, rfl, after, due⟩

variable {State Bytes : Type} [DecidableEq Bytes]
  {config : EngineConfig State EmitterInput Signal Bytes} {bus : BusKind}
  {moves : List (HostMove EmitterInput Signal)} {life : HostLife State EmitterInput Signal Bytes}
  {view : State → LimitState}

/-- **A single-shot limit strategy has one order and one cancel in all its lives**: any
two placements the engine acted on are one, any two cancels are one, and a cancel is of
that placement, sent after it on a wake no sooner than the deadline its tick set. -/
theorem limit_once
    (same : Implements (config.code strategyId) (singleShotLimit strategyId settings) view)
    (ran : (hostMachine config).run (HostLife.fresh config bus) moves = some life) :
    (∀ first ∈ life.sagas, ∀ second ∈ life.sagas, first.strategyId = strategyId →
      second.strategyId = strategyId → (IsPlace first.signal ∧ IsPlace second.signal ∨
        IsCancel first.signal ∧ IsCancel second.signal) → first = second) ∧
    ∀ sent ∈ life.sagas, sent.strategyId = strategyId → ∀ cancel, sent.signal = .cancel cancel →
      ∃ place, CancelOf strategyId settings sent.lived cancel place ∧
        ∀ other ∈ life.sagas, other.strategyId = strategyId → IsPlace other.signal →
          other.signal = .place place := by
  constructor
  · intro first acted second actedToo its itsToo kinds
    obtain ⟨published, one⟩ := acted_published ran same acted its
    obtain ⟨again, two⟩ := acted_published ran same actedToo itsToo
    have both : first.lived = second.lived ∧ first.signal = second.signal := by
      rcases kinds with ⟨firstPlaces, secondPlaces⟩ | ⟨firstCancels, secondCancels⟩
      · exact limit_places.published published again firstPlaces secondPlaces one two
      · exact limit_cancels.published published again firstCancels secondCancels one two
    cases first
    cases second
    simp only at its itsToo both
    rw [its, itsToo, both.1, both.2]
  · intro sent acted its cancel is
    obtain ⟨published, row⟩ := acted_published ran same acted its
    rw [is] at published
    obtain ⟨place, of⟩ := cancel_of published
    refine ⟨place, of, fun other actedToo itsToo places => ?_⟩
    obtain ⟨made, tick, seconds, earlier, wake, input, placedOn, within, lived, -, -⟩ := of.due
    obtain ⟨again, rowToo⟩ := acted_published ran same actedToo itsToo
    have onRow : made <+: (life.rows strategyId).lived :=
      within.trans ((List.prefix_append _ _).trans (lived ▸ row))
    exact (limit_places.published again placedOn.published places ⟨place, rfl⟩ rowToo onRow).2

end Limit

namespace Sample

def opener : StrategyId := ⟨"opener", by decide⟩

def openers : EngineConfig Bool EmitterInput Signal MarketSnapshot where
  code strategyId := singleShotMarket strategyId ⟨.buy, 3⟩
  symbols _ := ["AVAX"]
  wakeMaxAgeNs _ := none
  tickStalenessNs := none
  handlers := [.engine, .strategy opener]

def avaxTick : Feed.MarketTick where
  tsEvent := 4
  tsInit := 4
  symbol := "AVAX"
  price := 21
  size := 2
  aggressorSide := .buy
  tradeId := "t"
  seq := 1

/-- The tick comes twice, and so does the signal it led to. -/
def openTwice : List (HostMove EmitterInput Signal) :=
  [.boot, .start, .publish 0 (.routed (.tick avaxTick)), .fetch 0, .engine [] false .returned,
    .call ⟨1, .returned⟩, .emit, .callEnds, .save, .flush 1, .crash, .boot, .start, .fetch 0,
    .engine [] false .returned, .call ⟨2, .returned⟩, .callEnds, .save, .returns, .fetch 1,
    .engine [] true .returned, .crash, .boot, .start, .fetch 1, .engine [] true .returned]

theorem opened_once : ∃ life,
    (hostMachine openers).run (HostLife.fresh openers .kafka) openTwice = some life ∧
      life.sagas.length = 2 ∧
      ∀ first ∈ life.sagas, ∀ second ∈ life.sagas, first.strategyId = opener →
        second.strategyId = opener → first = second := by
  have ended : ((hostMachine openers).run (HostLife.fresh openers .kafka) openTwice).map
      (fun life => life.sagas.length) = some 2 := by decide +kernel
  obtain ⟨life, ran, two⟩ := Option.map_eq_some_iff.mp ended
  have same : Implements (openers.code opener) (singleShotMarket opener ⟨.buy, 3⟩) id :=
    ⟨rfl, fun _ _ _ => rfl, fun _ _ _ => rfl⟩
  exact ⟨life, ran, two, (market_once same ran).1⟩

def rester : StrategyId := ⟨"rester", by decide⟩

def resting : LimitSettings where
  side := .sell
  quantity := 3
  price := 25
  cancelAfterSeconds := some 2

def resters : EngineConfig LimitState EmitterInput Signal LimitSnapshot where
  code strategyId := singleShotLimit strategyId resting
  symbols _ := ["AVAX"]
  wakeMaxAgeNs _ := some 1000000000
  tickStalenessNs := none
  handlers := [.engine, .strategy rester]

/-- One record's handlers, the strategy sending one signal, and the record of the signal. -/
def sendsOne (nextSeq : ℕ) : List (HostMove EmitterInput Signal) :=
  [.fetch 0, .engine [] false .returned, .call ⟨nextSeq, .returned⟩, .emit, .callEnds, .save,
    .returns, .fetch 0, .engine [] true .returned, .returns]

/-- Placed in one life and cancelled in the next. -/
def placeAndCancel : List (HostMove EmitterInput Signal) :=
  [.boot, .start, .publish 0 (.routed (.tick avaxTick))] ++ sendsOne 1 ++
    [.crash, .boot, .start, .clock 3000000001,
      .publish 0 (.routed (.wake ⟨3000000000, 3000000000, rester⟩))] ++ sendsOne 2

theorem cancelled_once : ∃ life,
    (hostMachine resters).run (HostLife.fresh resters .inMemory) placeAndCancel = some life ∧
      life.sagas.map (fun sent => sent.signal.seq) = [1, 2] ∧
      ∀ sent ∈ life.sagas, sent.strategyId = rester → ∀ cancel, sent.signal = .cancel cancel →
        ∃ place, CancelOf rester resting sent.lived cancel place ∧
          ∀ other ∈ life.sagas, other.strategyId = rester → IsPlace other.signal →
            other.signal = .place place := by
  have ended : ((hostMachine resters).run (HostLife.fresh resters .inMemory) placeAndCancel).map
      (fun life => life.sagas.map fun sent => sent.signal.seq) = some [1, 2] := by decide +kernel
  obtain ⟨life, ran, two⟩ := Option.map_eq_some_iff.mp ended
  have same : Implements (resters.code rester) (singleShotLimit rester resting) id :=
    ⟨rfl, fun _ _ _ => rfl, fun _ _ _ => rfl⟩
  exact ⟨life, ran, two, (limit_once same ran).2⟩

end Sample

end Tickwright.Strategies
