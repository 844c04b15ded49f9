/-
# Feed.Ticks -- the two market data events a feed publishes

A `MarketTick` is one last trade, a `MarkTick` the mark price of a symbol.  Both
are last-value-wins.  Each carries a weak `event_id`, for audit and log lines
only: on the live path it leans on the venue's trade id or on the receipt
instant, on the replay path on the row's own per-symbol `seq`.

`MarketData` is the union a live feed sources; `Stream` is the type of an event,
which with the symbol makes the key that the ingress conflates under.
-/
import Tickwright.Domain.Vocabulary

namespace Tickwright.Feed

set_option autoImplicit false

open Tickwright.Domain

/-- The taker side of a trade tick. -/
inductive AggressorSide
  | buy
  | sell
deriving DecidableEq, Repr

/-- A last trade, with the feed's per-symbol source sequence. -/
structure MarketTick where
  tsEvent : Nanos
  tsInit : Nanos
  symbol : Symbol
  price : Decimal
  size : Decimal
  aggressorSide : AggressorSide
  tradeId : String
  seq : ℕ
  venueTradeId : Bool := false
deriving DecidableEq

/-- A symbol's mark price.  `seq` is set on a feed that needs it to keep two marks apart. -/
structure MarkTick where
  tsEvent : Nanos
  tsInit : Nanos
  symbol : Symbol
  price : Decimal
  seq : Option ℕ := none
deriving DecidableEq

namespace MarketTick

def eventId (tick : MarketTick) : String :=
  if tick.venueTradeId then tick.symbol ++ ":" ++ tick.tradeId
  else tick.symbol ++ ":" ++ toString tick.tsEvent ++ ":" ++ toString tick.seq

end MarketTick

namespace MarkTick

def eventId (mark : MarkTick) : String :=
  match mark.seq with
  | none => mark.symbol ++ ":" ++ toString mark.tsEvent
  | some seq => mark.symbol ++ ":" ++ toString mark.tsEvent ++ ":" ++ toString seq

end MarkTick

/-- The type of a market data event, under the name the source logs. -/
inductive Stream
  | marketTick
  | markTick
deriving DecidableEq, Repr

namespace Stream

def name : Stream → String
  | marketTick => "MarketTick"
  | markTick => "MarkTick"

end Stream

/-- What a live feed sources. -/
inductive MarketData
  | tick (tick : MarketTick)
  | mark (mark : MarkTick)
deriving DecidableEq

namespace MarketData

def stream : MarketData → Stream
  | .tick _ => .marketTick
  | .mark _ => .markTick

def symbol : MarketData → Symbol
  | .tick trade => trade.symbol
  | .mark price => price.symbol

def eventId : MarketData → String
  | .tick trade => trade.eventId
  | .mark price => price.eventId

/-- What the event is kept under: one slot for each stream of each symbol. -/
def key (event : MarketData) : Stream × Symbol := (event.stream, event.symbol)

end MarketData

end Tickwright.Feed
