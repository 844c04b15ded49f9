/-
# Paper.Exchange -- the paper venue's operations

The venue fills against ticks, remembers the last status and every fill it
reported, and answers reconciliation from that memory.  An operation publishes
into the bus and never waits for a handler, so what it reads of the engine's
store stays as it was when the operation began (`Reads`); a `Turn` is the venue
mid-operation beside what the operation has published so far.

The drain a read of the net performs is not stored: every read drains again.
The leverage bound `start` also checks concerns no order.
-/
import Tickwright.Domain.Texts
import Tickwright.Paper.Book
import Tickwright.Engine.Checkpoint

namespace Tickwright.Paper

open Tickwright.Domain Tickwright.Theory Tickwright.Engine

set_option autoImplicit false

/-! ## The fill model -/

/-- A fill decision.  The trade id is the exchange's to assign. -/
structure Fill where
  quantity : Decimal
  price : Decimal
deriving DecidableEq

/-- Whether and at what price and quantity an order fills.  `limitFill` may
answer `none`: a queue miss that leaves the order resting.  One operation asks
for each order at most once, so its decisions are a function of the order. -/
structure FillModel where
  marketFill : PlaceOrder → MarketTick → Fill
  limitFill : LimitOrder → MarketTick → Option Fill

/-- Zero slippage, full fill. -/
def immediateFillModel : FillModel where
  marketFill order tick := ⟨order.quantity, tick.price⟩
  limitFill order _ := some ⟨order.quantity, order.price⟩

/-- What a `StochasticFillModel` decides once its draws are fixed: whether this
order is reached in the queue, and the price after slippage. -/
def stochasticFillModel (partialFillFraction : Decimal) (reached : LimitOrder → MarketTick → Bool)
    (slipped : PlaceOrder → MarketTick → Decimal) : FillModel where
  marketFill order tick := ⟨order.quantity, slipped order tick⟩
  limitFill order tick :=
    if reached order tick then some ⟨order.quantity * partialFillFraction, order.price⟩ else none

/-! ## Trade ids -/

/-- Paper names each fill of an order by its number, counting from 1. -/
def tradeId (cloid : Cloid) (number : ℕ) : String := cloid ++ "-" ++ toString number

/-- `text.rpartition("-")`: what stands before the last dash and what after it. -/
def rpartition (text : List Char) : List Char × List Char :=
  let after := (text.reverse.takeWhile fun c => decide (c ≠ '-')).reverse
  match text.reverse.dropWhile fun c => decide (c ≠ '-') with
  | [] => ([], text)
  | _ :: before => (before.reverse, after)

/-- The number `tradeId` put in this fill's trade id, or `none` if paper did not
name this fill. -/
def fillNumber (report : FillReport) : Option ℕ :=
  let parts := rpartition report.tradeId.toList
  if parts.1 ≠ report.cloid.toList ∨ isdecimal parts.2 = false then none
  else (Domain.int parts.2).map Int.toNat

/-! ## The venue -/

/-- Config-sourced venue metadata. -/
structure PaperConfig where
  specs : Symbol → Option InstrumentSpec := fun _ => none

/-- What an operation reads of the engine's store and clock. -/
structure Reads where
  accountNet : Symbol → Decimal
  appliedFills : Cloid → Finset EventId
  nowNs : Nanos

/-- The venue's own state.  `unapplied` is its fills the store has not applied
yet, each with the side of its order. -/
structure PaperExchange where
  latestTick : Dict Symbol MarketTick := Dict.empty
  fillCounts : Dict Cloid ℕ := Dict.empty
  book : RestingBook := RestingBook.empty
  statuses : Dict Cloid OrderStatusReport := Dict.empty
  fills : Dict Cloid (List FillReport) := Dict.empty
  unapplied : List (FillReport × Side) := []

/-- Drop every fill the store has applied. -/
def drain (reads : Reads) (unapplied : List (FillReport × Side)) : List (FillReport × Side) :=
  unapplied.filter fun entry =>
    decide (EventId.fill entry.1.cloid entry.1.tradeId ∉ reads.appliedFills entry.1.cloid)

/-- The signed size the store has not applied yet in `symbol`. -/
def signedSize (reads : Reads) (unapplied : List (FillReport × Side)) (symbol : Symbol) : Decimal :=
  ((drain reads unapplied).map fun entry =>
    if entry.1.symbol = symbol then entry.2.sign * entry.1.quantity else 0).sum

namespace PaperExchange

/-- The account net in `symbol`: the store net plus the fills it has not applied. -/
def net (venue : PaperExchange) (reads : Reads) (symbol : Symbol) : Decimal :=
  reads.accountNet symbol + signedSize reads venue.unapplied symbol

/-- Whether the account net lies on the other side of `order`. -/
def reduces (venue : PaperExchange) (reads : Reads) (order : PlaceOrder) : Bool :=
  match order.side with
  | .sell => decide (0 < venue.net reads order.symbol)
  | .buy => decide (venue.net reads order.symbol < 0)

/-- The size the venue works `order` at. -/
def workingSize (venue : PaperExchange) (reads : Reads) (order : PlaceOrder) : Decimal :=
  if order.reduceOnly then min order.quantity |venue.net reads order.symbol| else order.quantity

/-- Whether a trade at the tick's price matches the order's LIMIT price. -/
def crosses (order : LimitOrder) (tick : MarketTick) : Bool :=
  match order.side with
  | .buy => decide (tick.price ≤ order.price)
  | .sell => decide (order.price ≤ tick.price)

def statusReport (reads : Reads) (order : PlaceOrder) (status : OrderState)
    (reason : Option String) : OrderStatusReport where
  cloid := order.cloid
  symbol := order.symbol
  status := status
  reason := reason
  tsEvent := reads.nowNs

/-- Keep a status as the last one reported for its cloid. -/
def remember (venue : PaperExchange) (report : OrderStatusReport) : PaperExchange :=
  { venue with statuses := venue.statuses.set report.cloid report }

/-- This fill's signed fee, or zero for a symbol carrying no spec. -/
def fee (config : PaperConfig) (symbol : Symbol) (fill : Fill) (maker : Bool) : Decimal :=
  match config.specs symbol with
  | none => 0
  | some spec => fillFee fill.price fill.quantity maker spec

def fillCount (venue : PaperExchange) (cloid : Cloid) : ℕ := (venue.fillCounts.get cloid).getD 0

def fillsOf (venue : PaperExchange) (cloid : Cloid) : List FillReport :=
  (venue.fills.get cloid).getD []

/-- The report of an order's next fill. -/
def fillReport (config : PaperConfig) (venue : PaperExchange) (reads : Reads) (order : PlaceOrder)
    (fill : Fill) (maker : Bool) : FillReport where
  cloid := order.cloid
  symbol := order.symbol
  tradeId := tradeId order.cloid (venue.fillCount order.cloid + 1)
  quantity := fill.quantity
  price := fill.price
  fee := fee config order.symbol fill maker
  tsEvent := reads.nowNs

/-- Count a fill: its number is taken, it is remembered, and it is on top of the
store net until the store applies it. -/
def count (venue : PaperExchange) (report : FillReport) (number : ℕ) (side : Side) :
    PaperExchange :=
  { venue with
    fillCounts := venue.fillCounts.set report.cloid number
    fills := venue.fills.set report.cloid (venue.fillsOf report.cloid ++ [report])
    unapplied := venue.unapplied ++ [(report, side)] }

/-- `fetch_order`: the last reported status beside every fill. -/
def fetchOrder (venue : PaperExchange) (cloid : Cloid) : VenueOrderView where
  status := venue.statuses.get cloid
  fills := venue.fillsOf cloid

end PaperExchange

/-! ## Mid-operation -/

/-- The venue mid-operation, beside what the operation has published. -/
structure Turn where
  venue : PaperExchange
  published : List ExecutionReport := []

namespace Turn

/-- Remember a status and publish it. -/
def announce (turn : Turn) (reads : Reads) (order : PlaceOrder) (status : OrderState)
    (reason : Option String) : Turn where
  venue := turn.venue.remember (PaperExchange.statusReport reads order status reason)
  published :=
    turn.published ++ [.status (PaperExchange.statusReport reads order status reason)]

/-- Put the book in place of the venue's own. -/
def withBook (turn : Turn) (book : RestingBook) : Turn :=
  { turn with venue := { turn.venue with book := book } }

/-- Number a fill, count it and publish it. -/
def reportFill (config : PaperConfig) (turn : Turn) (reads : Reads) (order : PlaceOrder)
    (fill : Fill) (maker : Bool) : Turn :=
  let report := PaperExchange.fillReport config turn.venue reads order fill maker
  { venue := turn.venue.count report (turn.venue.fillCount order.cloid + 1) order.side
    published := turn.published ++ [.fill report] }

/-- End a shrunk order once its working size has filled in full. -/
def endShrunk (turn : Turn) (reads : Reads) (order : PlaceOrder) : Turn :=
  turn.announce reads order .cancelled (some "reduce-only shrink")

/-- Fit one resting order to the net a fill left behind. -/
def recheck (reads : Reads) (symbol : Symbol) (turn : Turn) (order : LimitOrder) : Turn :=
  if order.symbol ≠ symbol ∨ order.reduceOnly = false then
    turn
  else if turn.venue.reduces reads order.toPlaceOrder then
    turn.withBook (turn.venue.book.shrink order.cloid |turn.venue.net reads symbol|)
  else
    (turn.withBook (turn.venue.book.remove order.cloid)).announce reads order.toPlaceOrder
      .cancelled (some "reduce-only cancelled")

/-- `_recheck_reduce_only`. -/
def recheckReduceOnly (reads : Reads) (turn : Turn) (symbol : Symbol) : Turn :=
  turn.venue.book.resting.foldl (recheck reads symbol) turn

/-- Publish one fill the book has taken, and end the order if it was shrunk. -/
def takeFill (config : PaperConfig) (turn : Turn) (reads : Reads) (order : LimitOrder)
    (result : BookFill) (price : Decimal) (maker : Bool) : Turn :=
  let filled := turn.reportFill config reads order.toPlaceOrder ⟨result.filled, price⟩ maker
  if result.shrunk then filled.endShrunk reads order.toPlaceOrder else filled

/-- `_fill_crossing_limit`: whether the fill completed the order. -/
def fillCrossingLimit (config : PaperConfig) (model : FillModel) (turn : Turn) (reads : Reads)
    (order : LimitOrder) (tick : MarketTick) (maker : Bool) :
    Except InvariantViolation (Bool × Turn) :=
  match model.limitFill order tick with
  | none => .ok (false, turn)
  | some fill =>
      (turn.venue.book.applyFill order.cloid fill.quantity).map fun result =>
        (result.1.complete,
          ((turn.withBook result.2).takeFill config reads order result.1 fill.price
            maker).recheckReduceOnly reads order.symbol)

/-- One resting order against a tick, read again at the size it works now. -/
def matchOne (config : PaperConfig) (model : FillModel) (reads : Reads) (tick : MarketTick)
    (turn : Turn) (snapshot : LimitOrder) : Except InvariantViolation Turn :=
  match turn.venue.book.working snapshot.cloid with
  | none => .ok turn
  | some order =>
      if order.symbol = tick.symbol ∧ PaperExchange.crosses order tick = true then
        (turn.fillCrossingLimit config model reads order tick true).map Prod.snd
      else
        .ok turn

/-- `_match_book`. -/
def matchBook (config : PaperConfig) (model : FillModel) (turn : Turn) (reads : Reads)
    (tick : MarketTick) : Except InvariantViolation Turn :=
  turn.venue.book.resting.foldlM (matchOne config model reads tick) turn

/-- A MARKET order filled at the size the venue works it at. -/
def fillMarket (config : PaperConfig) (model : FillModel) (turn : Turn) (reads : Reads)
    (order : PlaceOrder) (tick : MarketTick) : Turn :=
  let sized := { order with quantity := turn.venue.workingSize reads order }
  let filled := turn.reportFill config reads sized (model.marketFill sized tick) false
  if sized.quantity < order.quantity then filled.endShrunk reads sized else filled

/-- `_place_market`. -/
def placeMarket (config : PaperConfig) (model : FillModel) (turn : Turn) (reads : Reads)
    (order : PlaceOrder) (tick : MarketTick) : Turn :=
  let sized := { order with quantity := turn.venue.workingSize reads order }
  let refused := (config.specs order.symbol).any fun spec =>
    minNotionalRefuses tick.price sized.quantity spec order.side order.reduceOnly
      (turn.venue.net reads order.symbol)
  if refused then
    turn.announce reads sized .rejected (some "below min notional")
  else
    (turn.fillMarket config model reads order tick).recheckReduceOnly reads order.symbol

/-- `_place_limit`. -/
def placeLimit (config : PaperConfig) (model : FillModel) (turn : Turn) (reads : Reads)
    (order : LimitOrder) (tick : MarketTick) : Except InvariantViolation Turn :=
  let size := turn.venue.workingSize reads order.toPlaceOrder
  if PaperExchange.crosses order tick then
    if order.postOnly then
      .ok (turn.announce reads order.toPlaceOrder .rejected (some "post_only order would cross"))
    else
      let rested := turn.withBook (turn.venue.book.rest order size)
      (rested.fillCrossingLimit config model reads (Resting.put order size).atWorkingSize tick
        false).map fun result =>
          if result.1 then
            result.2
          else if order.timeInForce = .ioc then
            (result.2.withBook (result.2.venue.book.remove order.cloid)).announce reads
              order.toPlaceOrder .cancelled none
          -- A partial is taken to have driven the saga to a working state itself.
          else if result.2.venue.book.hasPartial order.cloid then
            result.2
          else
            result.2.announce reads order.toPlaceOrder .live none
  else if order.timeInForce = .ioc then
    .ok (turn.announce reads order.toPlaceOrder .cancelled none)
  else
    .ok ((turn.withBook (turn.venue.book.rest order size)).announce reads order.toPlaceOrder
      .live none)

/-- `place`. -/
def place (config : PaperConfig) (model : FillModel) (turn : Turn) (reads : Reads)
    (order : PlaceOrder) : Except InvariantViolation Turn :=
  if order.reduceOnly = true ∧ turn.venue.reduces reads order = false then
    .ok (turn.announce reads order .rejected (some "reduce-only order would increase position"))
  else
    match turn.venue.latestTick.get order.symbol with
    | none =>
        .ok (turn.announce reads order .failed
          (some ("no market tick cached for '" ++ order.symbol ++ "'")))
    | some tick =>
        match order.asLimit with
        | none => .ok (turn.placeMarket config model reads order tick)
        | some limit => turn.placeLimit config model reads limit tick

/-- One reference of a `cancel`.  Paper assigns no oids, so an external reference
names none of its orders. -/
def cancelOne (reads : Reads) (turn : Turn) (ref : CancelRef) : Turn :=
  match ref with
  | .external _ _ => turn
  | .ours ref =>
      match turn.venue.book.get ref.cloid with
      | none => turn
      | some resting =>
          (turn.withBook (turn.venue.book.remove ref.cloid)).announce reads
            resting.order.toPlaceOrder .cancelled none

/-- `cancel`. -/
def cancel (turn : Turn) (reads : Reads) (refs : List CancelRef) : Turn :=
  refs.foldl (cancelOne reads) turn

end Turn

namespace PaperExchange

/-- `on_tick`. -/
def onTick (config : PaperConfig) (model : FillModel) (venue : PaperExchange) (reads : Reads)
    (tick : MarketTick) : Except InvariantViolation Turn :=
  let cached := { venue with
    latestTick := venue.latestTick.set tick.symbol tick
    unapplied := drain reads venue.unapplied }
  Turn.matchBook config model { venue := cached } reads tick

/-- `_on_fill_report`: book a fill an earlier run made on an order this run
rebuilt. -/
def onFillReport (venue : PaperExchange) (report : FillReport) :
    Except InvariantViolation PaperExchange :=
  match fillNumber report with
  | none => .ok venue
  | some number =>
      if number ≤ venue.fillCount report.cloid then .ok venue
      else
        match venue.book.working report.cloid with
        | none => .ok venue
        | some order =>
            (venue.book.applyFill report.cloid report.quantity).map fun result =>
              { venue with book := result.2 }.count report number order.side

/-- Put one order an earlier run left resting back on the book. -/
def rebuild (reads : Reads) (venue : PaperExchange) (saga : Order) :
    Except InvariantViolation PaperExchange :=
  match placeOrderOf saga with
  | .error violation => .error violation
  | .ok request =>
      match request.asLimit with
      | none => .error (.rebuildsNoLimit saga.cloid)
      | some order =>
          let rested := { venue with
            book := venue.book.rest order (venue.workingSize reads request)
            fillCounts := venue.fillCounts.set saga.cloid saga.fillCount }
          .ok (rested.remember (statusReport reads request saga.state none))

/-- `_resting_orders`: the sagas of the orders an earlier run left on the book. -/
def restingOrders (orders : List Order) : List Order :=
  orders.filter fun order =>
    order.state.isWorking && decide (order.orderType = .limit) && order.price.isSome &&
      decide (order.timeInForce = some .gtc)

/-- `start`: the book of a new process, from the order rows. -/
def start (reads : Reads) (venue : PaperExchange) (rows : List Order) :
    Except InvariantViolation PaperExchange :=
  (restingOrders rows).foldlM (rebuild reads) venue

end PaperExchange

end Tickwright.Paper
