/-
# Hyperliquid.Wire -- what the adapter signs and sends

An order goes out as texts: its size, and a price that is the order's own or, for a
MARKET, a bound through the book (`limitPrice`).  Every signed action takes a nonce off
the clock, floored to stay above the last one (`Session.send`).

The bound reads two prices the session caches off the bus, the last trade and the last
mark, and takes the tighter.  `lastTrade` and `lastMark` say what those were from the
events alone, so the bound is stated without the caches.

The products of the bound and the normalized texts are rounded as the source's context
rounds them.  A figure of more than 28 significant digits goes out short (`Carries`).

* `Session.Rising`: nonces rise, whatever the clock does;
* `quantized_within`: a MARKET's price is one the venue takes, within the configured
  bound of both prices, and goes out whole;
* `placements_true`: a placement that does not raise sends one action that reads back as
  the order, or nothing and a `FAILED`.
-/
import Tickwright.Domain.PriceGrid
import Tickwright.Hyperliquid.Exchange
import Tickwright.Theory.Plain

namespace Tickwright.Hyperliquid

open Tickwright.Domain Tickwright.Engine Tickwright.Theory

set_option autoImplicit false

/-! ## The wire -/

/-- `_wire_decimal`: `normalize` rounds to the context's digits. -/
def wireDecimal (value : Decimal) : String := String.ofList (plain (rounded value))

/-- The order as it is hashed and sent, in the venue's own field names. -/
structure OrderWire where
  a : ℕ
  b : Bool
  p : String
  s : String
  r : Bool
  t : String
  c : Cloid
deriving DecidableEq

/-- `_wire_tif`. -/
def wireTif (order : PlaceOrder) : String :=
  if order.limitPrice = none then "Ioc"
  else if order.postOnly then "Alo"
  else
    match order.timeInForce with
    | .gtc => "Gtc"
    | .ioc => "Ioc"

/-- The universe and the bound the adapter is configured with. -/
structure WireConfig where
  assetIndices : Dict Symbol ℕ
  specs : Dict Symbol InstrumentSpec
  slippageBound : Decimal

/-- A signed action.  The others are cancels and leverage updates, whose bodies no
placement reads. -/
inductive Action
  | order (wire : OrderWire)
  | other (type : String)
deriving DecidableEq

/-- One call of `_send_action`. -/
structure Sent where
  nonce : ℤ
  action : Action
deriving DecidableEq

/-- What the adapter holds between two calls, with what it sent and published. -/
structure Session where
  latestPrice : Dict Symbol Decimal := Dict.empty
  latestMark : Dict Symbol Decimal := Dict.empty
  lastNonce : ℤ := 0
  sent : List Sent := []
  published : List OrderStatusReport := []

/-- How a wire is not built: a symbol the universe does not know, which is a bug of this
process, a price with too many digits on its grid (`InvalidOperation`), or a MARKET with no
price to bound it. -/
inductive Unpriced
  | unknown
  | invalid
  | missing (reason : String)

/-- The quantized price counts no more units of its grid than the context's digits write. -/
def quantizable (price : Decimal) (side : Side) (spec : InstrumentSpec) : Bool :=
  decide (|quantizePrice price side spec| < 10 ^ 28 * quantum (allowedDecimals price spec))

namespace Session

/-- `bound`, by the side. -/
def boundOf (config : WireConfig) (side : Side) : Decimal :=
  match side with
  | .buy => rounded (1 + config.slippageBound)
  | .sell => rounded (1 - config.slippageBound)

/-- The bound of a MARKET at one of the two prices. -/
def bounded (config : WireConfig) (side : Side) (price : Decimal) : Decimal :=
  rounded (price * boundOf config side)

/-- The tighter of the two: a buy pays no more, a sell takes no less. -/
def tighter (side : Side) (first second : Decimal) : Decimal :=
  match side with
  | .buy => min first second
  | .sell => max first second

/-- `_limit_price`. -/
def limitPrice (config : WireConfig) (session : Session) (order : PlaceOrder) :
    Except Unpriced Decimal :=
  match order.limitPrice with
  | some price => .ok price
  | none =>
      match session.latestPrice.get order.symbol with
      | none => .error (.missing ("no market tick cached for '" ++ order.symbol ++ "'"))
      | some latest =>
          match session.latestMark.get order.symbol with
          | none => .error (.missing ("no mark cached for '" ++ order.symbol ++ "'"))
          | some mark =>
              match config.specs.get order.symbol with
              | none => .error .unknown
              | some spec =>
                  let price := tighter order.side (bounded config order.side latest)
                    (bounded config order.side mark)
                  if quantizable price order.side spec then
                    .ok (quantizePrice price order.side spec)
                  else .error .invalid

/-- `_order_wire`. -/
def orderWire (config : WireConfig) (session : Session) (order : PlaceOrder) :
    Except Unpriced OrderWire :=
  match config.assetIndices.get order.symbol with
  | none => .error .unknown
  | some asset =>
      (session.limitPrice config order).map fun price =>
        { a := asset
          b := decide (order.side = .buy)
          p := wireDecimal price
          s := wireDecimal order.quantity
          r := order.reduceOnly
          t := wireTif order
          c := order.cloid }

/-- `_send_action`: the clock's milliseconds, above the last nonce. -/
def send (session : Session) (action : Action) (nowNs : Nanos) : Session :=
  let nonce := max (nowNs / 1000000) (session.lastNonce + 1)
  { session with lastNonce := nonce, sent := session.sent ++ [⟨nonce, action⟩] }

end Session

/-! ## The machine -/

/-- What reaches the adapter. -/
inductive WireEvent
  | tick (tick : MarketTick)
  | mark (symbol : Symbol) (mark : MarkTick)
  /-- `place`, up to the send. -/
  | place (order : PlaceOrder) (nowNs : Nanos)
  /-- A cancel batch or a leverage update is sent. -/
  | acts (type : String) (nowNs : Nanos)

/-- One process of the adapter.  A placement of a symbol the universe does not know, or at
a price with too many digits, raises and is no step. -/
def session (config : WireConfig) : Machine Session WireEvent where
  step session event :=
    match event with
    | .tick tick =>
        some { session with latestPrice := session.latestPrice.set tick.symbol tick.price }
    | .mark symbol mark =>
        some { session with latestMark := session.latestMark.set symbol mark.price }
    | .place order nowNs =>
        match session.orderWire config order with
        | .error .unknown | .error .invalid => none
        | .error (.missing reason) =>
            some { session with published := session.published ++
              [statusReport order.cloid order.symbol .failed none (some reason) nowNs] }
        | .ok wire => some (session.send (.order wire) nowNs)
    | .acts type nowNs => some (session.send (.other type) nowNs)

variable {config : WireConfig} {before after : Session} {events : List WireEvent}
  {order : PlaceOrder} {nowNs : Nanos}

/-! ## Nonces -/

/-- The nonces sent rise, up to the last one. -/
structure Session.Rising (session : Session) : Prop where
  rising : (session.sent.map Sent.nonce).Pairwise (· < ·)
  last : ∀ sent ∈ session.sent, sent.nonce ≤ session.lastNonce

theorem Session.Rising.send (rises : before.Rising) (action : Action) (nowNs : Nanos) :
    (before.send action nowNs).Rising := by
  have above : ∀ sent ∈ before.sent, sent.nonce < max (nowNs / 1000000) (before.lastNonce + 1) := by
    intro sent member
    have := rises.last sent member
    omega
  refine ⟨?_, fun sent member => ?_⟩
  · simp only [Session.send, List.map_append, List.map_cons, List.map_nil]
    refine List.pairwise_append.mpr ⟨rises.rising, List.pairwise_singleton _ _, ?_⟩
    intro nonce member other is
    obtain ⟨sent, there, rfl⟩ := List.mem_map.mp member
    rw [List.mem_singleton.mp is]
    exact above sent there
  · rcases List.mem_append.mp member with old | new
    · exact (above sent old).le
    · rw [List.mem_singleton.mp new]
      exact le_refl _

/-- Each step sends at most one action, and no step takes one back. -/
theorem step_rising {event : WireEvent} (rises : before.Rising)
    (stepped : (session config).step before event = some after) : after.Rising := by
  cases event with
  | tick tick =>
      cases stepped
      exact ⟨rises.rising, rises.last⟩
  | mark symbol mark =>
      cases stepped
      exact ⟨rises.rising, rises.last⟩
  | acts type nowNs =>
      cases stepped
      exact rises.send _ _
  | place order nowNs =>
      simp only [session] at stepped
      split at stepped
      · cases stepped
      · cases stepped
      · cases stepped
        exact ⟨rises.rising, rises.last⟩
      · cases stepped
        exact rises.send _ _

/-! ## The prices it knows -/

/-- The last trade of a symbol, one event on. -/
def nextTrade (symbol : Symbol) (last : Option Decimal) : WireEvent → Option Decimal
  | .tick tick => if tick.symbol = symbol then some tick.price else last
  | .mark _ _ | .place _ _ | .acts _ _ => last

/-- The last mark of a symbol, one event on. -/
def nextMark (symbol : Symbol) (last : Option Decimal) : WireEvent → Option Decimal
  | .mark other mark => if other = symbol then some mark.price else last
  | .tick _ | .place _ _ | .acts _ _ => last

/-- The last trade of a symbol these events delivered. -/
def lastTrade (events : List WireEvent) (symbol : Symbol) : Option Decimal :=
  events.foldl (nextTrade symbol) none

def lastMark (events : List WireEvent) (symbol : Symbol) : Option Decimal :=
  events.foldl (nextMark symbol) none

/-- A step caches what it hears. -/
theorem step_caches {event : WireEvent} (stepped : (session config).step before event = some after)
    (symbol : Symbol) :
    after.latestPrice.get symbol = nextTrade symbol (before.latestPrice.get symbol) event ∧
      after.latestMark.get symbol = nextMark symbol (before.latestMark.get symbol) event := by
  cases event with
  | tick tick =>
      cases stepped
      exact ⟨Dict.get_set .., rfl⟩
  | mark other mark =>
      cases stepped
      exact ⟨rfl, Dict.get_set ..⟩
  | acts type nowNs =>
      cases stepped
      exact ⟨rfl, rfl⟩
  | place order nowNs =>
      simp only [session] at stepped
      split at stepped <;> cases stepped <;> exact ⟨rfl, rfl⟩

theorem run_caches (ran : (session config).run before events = some after) (symbol : Symbol) :
    after.latestPrice.get symbol = events.foldl (nextTrade symbol) (before.latestPrice.get symbol) ∧
      after.latestMark.get symbol =
        events.foldl (nextMark symbol) (before.latestMark.get symbol) := by
  induction events generalizing before with
  | nil =>
      cases ran
      exact ⟨rfl, rfl⟩
  | cons event rest ih =>
      obtain ⟨middle, stepped, tail⟩ := Machine.run_cons_eq_some.mp ran
      obtain ⟨trade, mark⟩ := ih tail
      obtain ⟨price, marked⟩ := step_caches stepped symbol
      rw [trade, mark, price, marked]
      exact ⟨rfl, rfl⟩

/-- The prices it hears are above zero. -/
def WireEvent.Priced : WireEvent → Prop
  | .tick trade => 0 < trade.price
  | .mark _ value => 0 < value.price
  | .place _ _ | .acts _ _ => True

theorem foldl_positive {next : Option Decimal → WireEvent → Option Decimal} {last : Option Decimal}
    (keep : ∀ last event, event.Priced → (∀ price, last = some price → 0 < price) →
      ∀ price, next last event = some price → 0 < price)
    (start : ∀ price, last = some price → 0 < price) (priced : ∀ event ∈ events, event.Priced)
    {price : Decimal} (is : events.foldl next last = some price) : 0 < price := by
  induction events generalizing last with
  | nil => exact start price is
  | cons event rest ih =>
      exact ih (keep last event (priced event List.mem_cons_self) start)
        (fun other member => priced other (List.mem_cons_of_mem _ member)) is

theorem lastTrade_pos {symbol : Symbol} {price : Decimal}
    (priced : ∀ event ∈ events, event.Priced) (is : lastTrade events symbol = some price) :
    0 < price := by
  refine foldl_positive (fun last event fits known price is => ?_) (fun _ none_ => by cases none_)
    priced is
  cases event with
  | tick trade =>
      simp only [nextTrade] at is
      split at is
      · cases is
        exact fits
      · exact known price is
  | _ => exact known price is

theorem lastMark_pos {symbol : Symbol} {price : Decimal}
    (priced : ∀ event ∈ events, event.Priced) (is : lastMark events symbol = some price) :
    0 < price := by
  refine foldl_positive (fun last event fits known price is => ?_) (fun _ none_ => by cases none_)
    priced is
  cases event with
  | mark other value =>
      simp only [nextMark] at is
      split at is
      · cases is
        exact fits
      · exact known price is
  | _ => exact known price is

/-! ## The price of a MARKET -/

/-- A configuration the bound means something under: it leaves a sell a price above zero,
and the specs promise what they should. -/
structure WireConfig.Sound (config : WireConfig) : Prop where
  nonneg : 0 ≤ config.slippageBound
  below : config.slippageBound < 1
  specs : ∀ symbol spec, config.specs.get symbol = some spec → spec.Sound

/-- What a reference price may slip to, exactly. -/
def slipped (config : WireConfig) (side : Side) (reference : Decimal) : Decimal :=
  match side with
  | .buy => reference * (1 + config.slippageBound)
  | .sell => reference * (1 - config.slippageBound)

/-- Both results of the bound fit the context's digits. -/
def BoundFits (config : WireConfig) (side : Side) (reference : Decimal) : Prop :=
  Representable (slipped config side 1) ∧ Representable (slipped config side reference)

/-- A price within the bound of a reference: a buy pays no more than so much above it, a
sell takes no less than so much below.  So much is what the source's products make of
it, and the exact products where they fit. -/
def Within (config : WireConfig) (side : Side) (reference price : Decimal) : Prop :=
  side.sign * price ≤ side.sign * Session.bounded config side reference ∧
    (BoundFits config side reference →
      Session.bounded config side reference = slipped config side reference)

theorem bounded_exact {side : Side} {reference : Decimal}
    (fits : BoundFits config side reference) :
    Session.bounded config side reference = slipped config side reference := by
  obtain ⟨factor, product⟩ := fits
  cases side with
  | buy =>
      simp only [slipped, one_mul] at factor product ⊢
      rw [Session.bounded, Session.boundOf, rounded_of_representable factor,
        rounded_of_representable product]
  | sell =>
      simp only [slipped, one_mul] at factor product ⊢
      rw [Session.bounded, Session.boundOf, rounded_of_representable factor,
        rounded_of_representable product]

theorem bounded_sound (sound : config.Sound) (side : Side) {price : Decimal}
    (positive : 0 < price) :
    0 < Session.bounded config side price ∧ Representable (Session.bounded config side price) := by
  have nonneg := sound.nonneg
  have below := sound.below
  have factor : 0 < Session.boundOf config side := by
    cases side with
    | buy => exact rounded_pos (by linarith)
    | sell => exact rounded_pos (by linarith)
  have product : 0 < price * Session.boundOf config side := mul_pos positive factor
  exact ⟨rounded_pos product, rounded_representable product.le⟩

/-- The tighter of two bounds is one of them, and no looser than either. -/
theorem tighter_cases (side : Side) (first second : Decimal) :
    (Session.tighter side first second = first ∨ Session.tighter side first second = second) ∧
      side.sign * Session.tighter side first second ≤ side.sign * first ∧
      side.sign * Session.tighter side first second ≤ side.sign * second := by
  cases side with
  | buy =>
      simp only [Session.tighter, Side.sign, one_mul]
      exact ⟨min_choice first second, min_le_left _ _, min_le_right _ _⟩
  | sell =>
      simp only [Session.tighter, Side.sign, neg_one_mul, neg_le_neg_iff]
      exact ⟨max_choice first second, le_max_left _ _, le_max_right _ _⟩

/-- A quantized price takes no more digits than the price it is of. -/
theorem quantizePrice_representable {price : Decimal} (side : Side) (spec : InstrumentSpec)
    (nonneg : 0 ≤ price) (fits : Representable price) :
    Representable (quantizePrice price side spec) := by
  rw [Representable, ← ten_cast] at fits ⊢
  cases side with
  | buy =>
      simp only [quantizePrice, quantizeDown, if_pos nonneg, quantum, ← ten_cast]
      exact fits.floor (by omega) nonneg _
  | sell =>
      simp only [quantizePrice, quantizeUp, if_pos nonneg, quantum, ← ten_cast]
      exact fits.ceil (by omega) nonneg _

/-- **A MARKET is bounded by both prices**, at a price the venue takes, which the wire
keeps whole. -/
theorem quantized_within (sound : config.Sound) {spec : InstrumentSpec} (side : Side)
    (promised : spec.Sound) {trade mark : Decimal} (traded : 0 < trade) (marked : 0 < mark) :
    let price := quantizePrice (Session.tighter side (Session.bounded config side trade)
      (Session.bounded config side mark)) side spec
    VenueValid spec price ∧ Representable price ∧ Within config side trade price ∧
      Within config side mark price := by
  intro price
  obtain ⟨is, first, second⟩ := tighter_cases side (Session.bounded config side trade)
    (Session.bounded config side mark)
  have trusted : 0 < Session.tighter side (Session.bounded config side trade)
      (Session.bounded config side mark) ∧
      Representable (Session.tighter side (Session.bounded config side trade)
        (Session.bounded config side mark)) := by
    rcases is with is | is
    · rw [is]
      exact bounded_sound sound side traded
    · rw [is]
      exact bounded_sound sound side marked
  have passive := quantizePrice_passive side spec trusted.1.le
  exact ⟨quantizePrice_valid promised side trusted.1,
    quantizePrice_representable side spec trusted.1.le trusted.2,
    ⟨passive.trans first, bounded_exact⟩, passive.trans second, bounded_exact⟩

/-- A price on a grid of places has places. -/
theorem terminates_of_onGrid {price : Decimal} (count : ℤ) (nonneg : 0 ≤ count)
    (on : OnGrid (10 : Decimal) (-count) price) : Terminates price := by
  obtain ⟨k, rfl⟩ := on
  obtain ⟨places, rfl⟩ := Int.eq_ofNat_of_zero_le nonneg
  refine terminates_of_mul places (?_ : _ = (k : ℚ))
  rw [zpow_neg, zpow_natCast, mul_assoc, inv_mul_cancel₀ (by positivity), mul_one]

/-- What the context keeps has places. -/
theorem rounded_terminates (value : Decimal) : Terminates (rounded value) := by
  have on : OnGrid (10 : Decimal) (Int.log 10 |value| + 1 - 28) (rounded value) := by
    refine ⟨halfEven (value / lastPlace 10 28 value), ?_⟩
    rw [rounded, roundDigits, lastPlace, ten_cast]
  exact terminates_of_onGrid (max 0 (-(Int.log 10 |value| + 1 - 28))) (le_max_left _ _)
    (onGrid_mono on (by omega))

/-! ## A placement -/

theorem wireDecimal_reads (value : Decimal) :
    ofPlain (wireDecimal value).toList = some (rounded value) ∧
      Trimmed (wireDecimal value).toList := by
  rw [wireDecimal, String.toList_ofList]
  exact ⟨ofPlain_plain (rounded_terminates value), plain_trimmed (rounded_terminates value)⟩

example : (wireDecimal (1234567890123456789012345678905 / 10)).toList =
    "123456789012345678901234567900".toList := by decide +kernel

/-- What the venue reads off the wire of an order: its figures as the context keeps them,
and so the figures themselves where it keeps them whole. -/
structure Carries (order : PlaceOrder) (wire : OrderWire) (price : Decimal) : Prop where
  kept : ofPlain wire.p.toList = some (rounded price) ∧
    ofPlain wire.s.toList = some (rounded order.quantity)
  price : Representable price → ofPlain wire.p.toList = some price
  size : Representable order.quantity → ofPlain wire.s.toList = some order.quantity
  trimmed : Trimmed wire.p.toList ∧ Trimmed wire.s.toList
  side : wire.b = true ↔ order.side = .buy
  reduceOnly : wire.r = order.reduceOnly
  cloid : wire.c = order.cloid
  tif : wire.t = wireTif order

/-- The price an order goes out at: its own, or a MARKET's, which never rests and goes out
whole. -/
def Prices (config : WireConfig) (events : List WireEvent) (order : PlaceOrder)
    (price : Decimal) : Prop :=
  match order.limitPrice with
  | some own => price = own
  | none => wireTif order = "Ioc" ∧ ∃ spec trade mark, config.specs.get order.symbol = some spec ∧
      lastTrade events order.symbol = some trade ∧ lastMark events order.symbol = some mark ∧
      VenueValid spec price ∧ Representable price ∧ Within config order.side trade price ∧
      Within config order.side mark price

/-- The price of an order, or the price that is missing, or a raise. -/
theorem limitPrice_cases (order : PlaceOrder) (sound : config.Sound)
    (priced : ∀ event ∈ events, event.Priced)
    (ran : (session config).run {} events = some before) :
    (∃ price, before.limitPrice config order = .ok price ∧ Prices config events order price) ∨
    (∃ reason, before.limitPrice config order = .error (.missing reason) ∧
      order.limitPrice = none ∧
      (lastTrade events order.symbol = none ∨ lastMark events order.symbol = none)) ∨
    before.limitPrice config order = .error .unknown ∨
      before.limitPrice config order = .error .invalid := by
  obtain ⟨trades, marks⟩ := run_caches ran order.symbol
  replace trades : before.latestPrice.get order.symbol = lastTrade events order.symbol := trades
  replace marks : before.latestMark.get order.symbol = lastMark events order.symbol := marks
  simp only [Session.limitPrice, Prices, trades, marks]
  cases own : order.limitPrice with
  | some price => exact .inl ⟨price, rfl, rfl⟩
  | none =>
      cases traded : lastTrade events order.symbol with
      | none => exact .inr (.inl ⟨_, rfl, rfl, .inl rfl⟩)
      | some trade =>
          cases marked : lastMark events order.symbol with
          | none => exact .inr (.inl ⟨_, rfl, rfl, .inr rfl⟩)
          | some mark =>
              cases known : config.specs.get order.symbol with
              | none => exact .inr (.inr (.inl rfl))
              | some spec =>
                  dsimp only
                  split
                  · have promised := sound.specs _ _ known
                    obtain ⟨valid, kept, first, second⟩ := quantized_within sound order.side
                      promised (lastTrade_pos priced traded) (lastMark_pos priced marked)
                    exact .inl ⟨_, rfl, if_pos own, spec, trade, mark, rfl, rfl, rfl, valid,
                      kept, first, second⟩
                  · exact .inr (.inr (.inr rfl))

/-- **What a placement sends.**  In every run of the adapter over any trades, marks,
placements and other actions, on any clock, nonces rise with each send.  A placement that
does not raise either sends one action, which the venue reads as the order at its own
price in 28 digits, or for a MARKET at a valid price within the bound of both the last
trade and the last mark; or it is a MARKET with one of the two missing, which sends
nothing and ends `FAILED`. -/
theorem placements_true (sound : config.Sound) (priced : ∀ event ∈ events, event.Priced)
    (ran : (session config).run {} events = some before)
    (stepped : (session config).step before (.place order nowNs) = some after) :
    (after.sent.map Sent.nonce).Pairwise (· < ·) ∧
    ((∃ nonce wire price, after.sent = before.sent ++ [⟨nonce, .order wire⟩] ∧
        nowNs / 1000000 ≤ nonce ∧ Carries order wire price ∧ Prices config events order price) ∨
      (order.limitPrice = none ∧
        (lastTrade events order.symbol = none ∨ lastMark events order.symbol = none) ∧
        after.sent = before.sent ∧ ∃ report, after.published = before.published ++ [report] ∧
          report.cloid = order.cloid ∧ report.status = .failed)) := by
  have rises : before.Rising := Machine.run_induct Session.Rising step_rising
    ⟨List.Pairwise.nil, fun _ member => by cases member⟩ ran
  refine ⟨(step_rising rises stepped).rising, ?_⟩
  simp only [session, Session.orderWire] at stepped
  cases listed : config.assetIndices.get order.symbol with
  | none =>
      rw [listed] at stepped
      cases stepped
  | some asset =>
      simp only [listed] at stepped
      rcases limitPrice_cases order sound priced ran with
        ⟨price, named, prices⟩ | ⟨reason, named, market, missing⟩ | named | named
      · simp only [named, Except.map] at stepped
        cases stepped
        have priced := wireDecimal_reads price
        have sized := wireDecimal_reads order.quantity
        refine .inl ⟨_, _, price, rfl, le_max_left _ _, ⟨⟨priced.1, sized.1⟩, fun whole => ?_,
          fun whole => ?_, ⟨priced.2, sized.2⟩, decide_eq_true_iff, rfl, rfl, rfl⟩, prices⟩
        · rw [priced.1, rounded_of_representable whole]
        · rw [sized.1, rounded_of_representable whole]
      · simp only [named, Except.map] at stepped
        cases stepped
        exact .inr ⟨market, missing, rfl, _, rfl, rfl, rfl⟩
      · simp only [named, Except.map] at stepped
        cases stepped
      · simp only [named, Except.map] at stepped
        cases stepped

namespace Sample

/-- Five figures, and places down to a tenth. -/
def ethSpec : InstrumentSpec where
  szDecimals := 4
  maxDecimals := 6
  minNotional := 10
  maxSigFigs := some 5

def perps : WireConfig where
  assetIndices := Dict.empty.set "ETH" 1
  specs := Dict.empty.set "ETH" ethSpec
  slippageBound := 1 / 20

/-- Bought at the market. -/
def eighth : PlaceOrder where
  cloid := "0x31"
  symbol := "ETH"
  side := .buy
  quantity := 1 / 8
  timeInForce := .ioc

/-- A trade above the mark, and a cancel sent in the same millisecond. -/
def heard : List WireEvent :=
  [.tick { symbol := "ETH", price := 2600 }, .mark "ETH" { price := 2500, tsEvent := 1 },
    .acts "cancel" 7000000]

theorem perps_sound : perps.Sound where
  nonneg := by decide +kernel
  below := by decide +kernel
  specs := by
    intro symbol spec is
    have only : spec = ethSpec := by
      simp only [perps, Dict.get_set] at is
      split at is
      · exact (Option.some.inj is).symm
      · cases is
    rw [only]
    exact ⟨by decide, fun figures named => by cases named; decide⟩

/-- The buy goes out at the mark's bound, one nonce above the cancel. -/
theorem eighth_sent : ∃ before after, (session perps).run {} heard = some before ∧
    (session perps).step before (.place eighth 7000000) = some after ∧
    after.sent.map Sent.nonce = [7, 8] ∧ ∃ wire price,
      after.sent = before.sent ++ [⟨8, .order wire⟩] ∧ Carries eighth wire price ∧
      Prices perps heard eighth price := by
  have steps : ((session perps).run {} heard).bind (fun before =>
      ((session perps).step before (.place eighth 7000000)).map fun after =>
        (before.sent.map Sent.nonce, after.sent.map Sent.nonce)) = some ([7], [7, 8]) := by
    decide +kernel
  obtain ⟨before, ran, there⟩ := Option.bind_eq_some_iff.mp steps
  obtain ⟨after, stepped, is⟩ := Option.map_eq_some_iff.mp there
  simp only [Prod.mk.injEq] at is
  have priced : ∀ event ∈ heard, event.Priced := by
    simp [heard, WireEvent.Priced]
  rcases (placements_true perps_sound priced ran stepped).2 with
    ⟨nonce, wire, price, sent, _, carries, prices⟩ | ⟨_, _, same, _⟩
  · have nonces := is.2
    rw [sent, List.map_append, is.1] at nonces
    obtain rfl : nonce = 8 := by simpa using nonces
    exact ⟨before, after, ran, stepped, is.2, wire, price, sent, carries, prices⟩
  · rw [same, is.1] at is
    exact absurd is.2 (by decide)

end Sample

end Tickwright.Hyperliquid
