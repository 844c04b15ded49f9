/-
# Domain.Emitter -- the counter a signal's id is drawn from

A `SignalEmitter` owns one strategy's `seq` and builds its signals.  A verb that
refuses its arguments uses no seq; every other takes the next one
(`emit_takes`), and a `PlaceSignal` it builds names a price exactly where its
order type does (`emit_wellFormed`).

The seq record and the publish behind it are the engine's, so they stand in
`Engine.SignalIds` with the crashes that can fall between them.
-/
import Tickwright.Domain.Venue

namespace Tickwright.Domain

set_option autoImplicit false

/-- What a strategy, or the operator, sends the engine. -/
inductive Signal
  | place (signal : PlaceSignal)
  | cancel (signal : CancelSignal)
  | cancelAll (signal : CancelAllSignal)
deriving DecidableEq

namespace Signal

def signalId : Signal → SignalId
  | place signal => signal.signalId
  | cancel signal => ⟨signal.strategyId, signal.symbol, signal.seq⟩
  | cancelAll signal => ⟨signal.strategyId, signal.symbol, signal.seq⟩

def strategyId (signal : Signal) : StrategyId := signal.signalId.strategyId

def seq (signal : Signal) : ℕ := signal.signalId.seq

end Signal

/-- Why a verb refuses its arguments. -/
inductive EmitterRefusal
  /-- `LIMIT order on {symbol} needs a price` -/
  | limitNeedsPrice (symbol : Symbol)
  /-- `MARKET order on {symbol} takes no price` -/
  | marketTakesNoPrice (symbol : Symbol)
deriving DecidableEq

/-- The verbs of an emitter, with their arguments. -/
inductive EmitterVerb
  | place (symbol : Symbol) (side : Side) (quantity : Decimal) (orderType : OrderType)
      (timeInForce : TimeInForce) (price : Option Decimal) (postOnly reduceOnly : Bool)
  | cancel (symbol : Symbol) (targetSignalId : SignalId)
  | cancelAll (symbol : Symbol)

/-- One strategy's seq counter. -/
structure SignalEmitter where
  strategyId : StrategyId
  nextSeq : ℕ := 1
deriving DecidableEq

namespace SignalEmitter

/-- Resume the counter from the recovered high water. -/
def setNextSeq (emitter : SignalEmitter) (nextSeq : ℕ) : SignalEmitter :=
  { emitter with nextSeq := nextSeq }

/-- Allocate the next seq. -/
def next (emitter : SignalEmitter) : ℕ × SignalEmitter :=
  (emitter.nextSeq, { emitter with nextSeq := emitter.nextSeq + 1 })

/-- Build one verb's signal, with the seq it takes. -/
def emit (emitter : SignalEmitter) : EmitterVerb → Except EmitterRefusal (Signal × SignalEmitter)
  | .place symbol side quantity orderType timeInForce price postOnly reduceOnly =>
      if orderType = .limit ∧ price = none then
        .error (.limitNeedsPrice symbol)
      else if orderType = .market ∧ price ≠ none then
        .error (.marketTakesNoPrice symbol)
      else
        .ok (.place
          { strategyId := emitter.strategyId
            symbol := symbol
            seq := emitter.next.1
            side := side
            quantity := quantity
            orderType := orderType
            timeInForce := timeInForce
            price := price
            postOnly := postOnly
            reduceOnly := reduceOnly }, emitter.next.2)
  | .cancel symbol targetSignalId =>
      .ok (.cancel ⟨emitter.strategyId, symbol, emitter.next.1, targetSignalId⟩, emitter.next.2)
  | .cancelAll symbol =>
      .ok (.cancelAll ⟨emitter.strategyId, symbol, emitter.next.1⟩, emitter.next.2)

/-- **A signal carries its emitter's id and takes its next seq.** -/
theorem emit_takes {emitter moved : SignalEmitter} {verb : EmitterVerb} {signal : Signal}
    (emitted : emitter.emit verb = .ok (signal, moved)) :
    signal.strategyId = emitter.strategyId ∧ signal.seq = emitter.nextSeq ∧
      moved = { emitter with nextSeq := emitter.nextSeq + 1 } := by
  cases verb with
  | place symbol side quantity orderType timeInForce price postOnly reduceOnly =>
      simp only [emit] at emitted
      split at emitted
      · cases emitted
      · split at emitted
        · cases emitted
        · cases emitted
          exact ⟨rfl, rfl, rfl⟩
  | cancel symbol targetSignalId =>
      cases emitted
      exact ⟨rfl, rfl, rfl⟩
  | cancelAll symbol =>
      cases emitted
      exact ⟨rfl, rfl, rfl⟩

/-- **No malformed placement leaves an emitter.** -/
theorem emit_wellFormed {emitter moved : SignalEmitter} {verb : EmitterVerb} {signal : PlaceSignal}
    (emitted : emitter.emit verb = .ok (.place signal, moved)) : signal.WellFormed := by
  cases verb with
  | place symbol side quantity orderType timeInForce price postOnly reduceOnly =>
      simp only [emit] at emitted
      split at emitted
      · cases emitted
      · rename_i priced
        split at emitted
        · cases emitted
        · rename_i unpriced
          cases emitted
          unfold PlaceSignal.WellFormed
          cases orderType with
          | limit =>
              simp only [true_and] at priced
              simpa [Option.isSome_iff_ne_none] using priced
          | market =>
              simpa using unpriced
  | cancel symbol targetSignalId => cases emitted
  | cancelAll symbol => cases emitted

end SignalEmitter

end Tickwright.Domain
