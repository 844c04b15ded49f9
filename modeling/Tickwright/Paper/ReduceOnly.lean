/-
# Paper.ReduceOnly -- reduce-only orders against the net

The venue cuts a reduce-only order to the account net when it takes it, and fits every
resting one to the net each of its own fills leaves.  So long as each resting
reduce-only order works no more than the net on its other side (`Fitted`), an
operation fills none of them past it: `Made` is what an operation published and what
that did to the net, and `ShrinksNet` judges its fills one after the other.

A fill leaves the other orders in its symbol unfitted until the recheck that follows
it; `owed` says which.
-/
import Tickwright.Paper.Moves

namespace Tickwright.Paper

open Tickwright.Domain Tickwright.Theory Tickwright.Engine

set_option autoImplicit false

variable {config : PaperConfig} {model : FillModel} {reads : Reads} {sagas : Dict Cloid Order}

/-! ## Fills and the net -/

/-- A net that went toward zero, and not past it. -/
structure Shrinks (net after : Decimal) : Prop where
  less : |after| < |net|
  keeps : 0 ≤ net * after

/-- A model that fills a MARKET order whole, and a LIMIT order by a positive part. -/
structure FillModel.Fills (model : FillModel) : Prop where
  whole : ∀ order tick, (model.marketFill order tick).quantity = order.quantity
  positive : ∀ order tick fill, 0 < order.quantity → model.limitFill order tick = some fill →
    0 < fill.quantity

theorem immediate_fills : immediateFillModel.Fills where
  whole _ _ := rfl
  positive order tick fill positive fills := by
    cases fills
    exact positive

theorem stochastic_fills {fraction : Decimal} (positive : 0 < fraction)
    (reached : LimitOrder → MarketTick → Bool) (slipped : PlaceOrder → MarketTick → Decimal) :
    (stochasticFillModel fraction reached slipped).Fills where
  whole _ _ := rfl
  positive order tick fill sized fills := by
    simp only [stochasticFillModel] at fills
    split at fills
    · cases fills
      exact mul_pos sized positive
    · cases fills

/-- The fills among these reports. -/
def fillsIn (reports : List ExecutionReport) : List FillReport :=
  reports.filterMap fun
    | .fill fill => some fill
    | .status _ | .refused _ _ => none

@[simp] theorem fillsIn_nil : fillsIn [] = [] := rfl

@[simp] theorem fillsIn_append (first second : List ExecutionReport) :
    fillsIn (first ++ second) = fillsIn first ++ fillsIn second := List.filterMap_append

@[simp] theorem fillsIn_fill (fill : FillReport) (rest : List ExecutionReport) :
    fillsIn (.fill fill :: rest) = fill :: fillsIn rest := rfl

@[simp] theorem fillsIn_status (report : OrderStatusReport) (rest : List ExecutionReport) :
    fillsIn (.status report :: rest) = fillsIn rest := rfl

/-- The net a fill of a known order leaves. -/
def moved (sagas : Dict Cloid Order) (net : Symbol → Decimal) (fill : FillReport) :
    Symbol → Decimal :=
  match sagas.get fill.cloid with
  | none => net
  | some order => fun symbol =>
      if symbol = order.symbol then net symbol + order.side.sign * fill.quantity else net symbol

/-- Each of these fills, after those before it, is of an order that is known and has a
positive size, and shrinks the net if its order is reduce-only. -/
def ShrinksNet (sagas : Dict Cloid Order) : (Symbol → Decimal) → List FillReport → Prop
  | _, [] => True
  | net, fill :: rest =>
      (∃ order, sagas.get fill.cloid = some order ∧ 0 < fill.quantity ∧
        (order.reduceOnly = true →
          Shrinks (net order.symbol) (moved sagas net fill order.symbol))) ∧
      ShrinksNet sagas (moved sagas net fill) rest

theorem shrinksNet_append {net : Symbol → Decimal} {first second : List FillReport} :
    ShrinksNet sagas net (first ++ second) ↔
      ShrinksNet sagas net first ∧ ShrinksNet sagas (first.foldl (moved sagas) net) second := by
  induction first generalizing net with
  | nil => simp [ShrinksNet]
  | cons fill rest ih => simp only [List.cons_append, ShrinksNet, ih, List.foldl_cons, and_assoc]

/-! ## The venue's net -/

/-- The net hangs on the fills that wait alone. -/
theorem net_congr {venue other : PaperExchange} (same : other.unapplied = venue.unapplied) :
    other.net reads = venue.net reads := by
  funext symbol
  rw [PaperExchange.net, PaperExchange.net, same]

theorem reduces_congr {venue other : PaperExchange} {later : Reads} {order : PlaceOrder}
    (same : other.net later order.symbol = venue.net reads order.symbol) :
    other.reduces later order = venue.reduces reads order := by
  rw [PaperExchange.reduces, PaperExchange.reduces, same]

/-- **A fill within the net on the other side shrinks it.** -/
theorem shrinks_of_reduces {venue : PaperExchange} {order : PlaceOrder} {quantity : Decimal}
    (reduces : venue.reduces reads order = true) (positive : 0 < quantity)
    (within : quantity ≤ |venue.net reads order.symbol|) :
    Shrinks (venue.net reads order.symbol)
      (venue.net reads order.symbol + order.side.sign * quantity) := by
  simp only [PaperExchange.reduces] at reduces
  generalize venue.net reads order.symbol = net at reduces within ⊢
  cases side : order.side with
  | sell =>
      simp only [side, decide_eq_true_eq] at reduces
      rw [abs_of_pos reduces] at within
      have after : 0 ≤ net + Side.sell.sign * quantity := by
        simp only [Side.sign]
        linarith
      refine ⟨?_, mul_nonneg reduces.le after⟩
      rw [abs_of_pos reduces, abs_of_nonneg after, Side.sign]
      linarith
  | buy =>
      simp only [side, decide_eq_true_eq] at reduces
      rw [abs_of_neg reduces] at within
      have after : net + Side.buy.sign * quantity ≤ 0 := by
        simp only [Side.sign]
        linarith
      refine ⟨?_, mul_nonneg_of_nonpos_of_nonpos reduces.le after⟩
      rw [abs_of_neg reduces, abs_of_nonpos after, Side.sign]
      linarith

theorem net_ne_zero_of_reduces {venue : PaperExchange} {order : PlaceOrder}
    (reduces : venue.reduces reads order = true) : venue.net reads order.symbol ≠ 0 := by
  simp only [PaperExchange.reduces] at reduces
  cases side : order.side with
  | sell =>
      simp only [side, decide_eq_true_eq] at reduces
      exact reduces.ne'
  | buy =>
      simp only [side, decide_eq_true_eq] at reduces
      exact reduces.ne

/-! ## What an operation made -/

/-- The saga of an order the venue works, in the terms the net takes of it. -/
structure Owns (sagas : Dict Cloid Order) (order : PlaceOrder) (saga : Order) : Prop where
  held : sagas.get order.cloid = some saga
  symbol : saga.symbol = order.symbol
  side : saga.side = order.side
  reduceOnly : saga.reduceOnly = order.reduceOnly

/-- The order's next fills are none the store has applied. -/
def Unbooked (reads : Reads) (venue : PaperExchange) (cloid : Cloid) : Prop :=
  ∀ number, venue.fillCount cloid < number →
    EventId.fill cloid (tradeId cloid number) ∉ reads.appliedFills cloid

/-- A fill as the venue keeps it until the store applies it. -/
structure Kept (sagas : Dict Cloid Order) (reads : Reads) (entry : FillReport × Side) : Prop where
  saga : ∃ order, sagas.get entry.1.cloid = some order ∧ entry.1.symbol = order.symbol ∧
    entry.2 = order.side
  waits : EventId.fill entry.1.cloid entry.1.tradeId ∉ reads.appliedFills entry.1.cloid

/-- What an operation published between two of its points, and what it did to the net. -/
structure Made (sagas : Dict Cloid Order) (reads : Reads) (turn after : Turn)
    (made : List (FillReport × Side)) : Prop where
  published : ∃ reports, after.published = turn.published ++ reports ∧
    fillsIn reports = made.map Prod.fst
  unapplied : after.venue.unapplied = turn.venue.unapplied ++ made
  kept : ∀ entry ∈ made, Kept sagas reads entry
  shrinks : ShrinksNet sagas (turn.venue.net reads) (made.map Prod.fst)
  net : after.venue.net reads = (made.map Prod.fst).foldl (moved sagas) (turn.venue.net reads)

theorem Made.trans {turn middle after : Turn} {first second : List (FillReport × Side)}
    (one : Made sagas reads turn middle first) (two : Made sagas reads middle after second) :
    Made sagas reads turn after (first ++ second) := by
  obtain ⟨reports, published, fills⟩ := one.published
  obtain ⟨more, then_, others⟩ := two.published
  refine ⟨⟨reports ++ more, by rw [then_, published, List.append_assoc], ?_⟩, ?_,
    fun entry member => ?_, ?_, ?_⟩
  · rw [fillsIn_append, fills, others, List.map_append]
  · rw [two.unapplied, one.unapplied, List.append_assoc]
  · rcases List.mem_append.mp member with old | new
    · exact one.kept entry old
    · exact two.kept entry new
  · rw [List.map_append, shrinksNet_append, ← one.net]
    exact ⟨one.shrinks, two.shrinks⟩
  · rw [List.map_append, List.foldl_append, ← one.net, two.net]

/-- Nothing was filled. -/
theorem Made.idle {turn after : Turn} {reports : List ExecutionReport}
    (published : after.published = turn.published ++ reports) (none : fillsIn reports = [])
    (same : after.venue.unapplied = turn.venue.unapplied) : Made sagas reads turn after [] :=
  ⟨⟨reports, published, none⟩, by rw [same, List.append_nil],
    fun _ member => (by cases member), trivial, net_congr same⟩

variable (reads sagas) in
theorem Made.announce (turn : Turn) (order : PlaceOrder) (status : OrderState)
    (reason : Option String) :
    Made sagas reads turn (turn.announce reads order status reason) [] :=
  .idle rfl rfl rfl

variable (reads sagas) in
theorem Made.withBook (turn : Turn) (book : RestingBook) :
    Made sagas reads turn (turn.withBook book) [] :=
  .idle (List.append_nil _).symm rfl rfl

variable (config) in
/-- **One fill**: of a positive size, and within the net if its order is reduce-only. -/
theorem Made.reportFill (turn : Turn) {order : PlaceOrder} {saga : Order} (fill : Fill)
    (owns : Owns sagas order saga) (unbooked : Unbooked reads turn.venue order.cloid)
    (positive : 0 < fill.quantity)
    (within : order.reduceOnly = true → turn.venue.reduces reads order = true ∧
      fill.quantity ≤ |turn.venue.net reads order.symbol|) (maker : Bool) :
    (∃ made, Made sagas reads turn (turn.reportFill config reads order fill maker) made) ∧
      ∀ symbol, symbol ≠ order.symbol →
        (turn.reportFill config reads order fill maker).venue.net reads symbol =
          turn.venue.net reads symbol := by
  let report := PaperExchange.fillReport config turn.venue reads order fill maker
  have waits : EventId.fill report.cloid report.tradeId ∉ reads.appliedFills report.cloid :=
    unbooked _ (Nat.lt_succ_self _)
  have net : (turn.reportFill config reads order fill maker).venue.net reads =
      moved sagas (turn.venue.net reads) report := by
    funext symbol
    have size : signedSize reads (turn.venue.unapplied ++ [(report, order.side)]) symbol =
        signedSize reads turn.venue.unapplied symbol +
          if symbol = order.symbol then order.side.sign * fill.quantity else 0 := by
      simp only [signedSize, drain, List.filter_append, List.map_append, List.sum_append]
      simp only [List.filter_cons, waits, not_false_eq_true, decide_true, if_true, List.filter_nil,
        List.map_cons, List.map_nil, List.sum_cons, List.sum_nil, add_zero]
      simp only [report, PaperExchange.fillReport, eq_comm]
    show reads.accountNet symbol +
      signedSize reads (turn.venue.unapplied ++ [(report, order.side)]) symbol = _
    rw [size, moved, show sagas.get report.cloid = some saga from owns.held]
    simp only [owns.symbol, owns.side, PaperExchange.net, report, PaperExchange.fillReport]
    split
    · rw [add_assoc]
    · rw [add_zero]
  refine ⟨⟨[(report, order.side)], ⟨[.fill report], rfl, rfl⟩, rfl, fun entry member => ?_, ?_,
    net⟩, fun symbol other => ?_⟩
  · obtain rfl := List.mem_singleton.mp member
    exact ⟨⟨saga, owns.held, owns.symbol.symm, owns.side.symm⟩, waits⟩
  · refine ⟨⟨saga, owns.held, positive, fun reduceOnly => ?_⟩, trivial⟩
    obtain ⟨reduces, less⟩ := within (owns.reduceOnly ▸ reduceOnly)
    rw [moved, show sagas.get report.cloid = some saga from owns.held]
    simp only [if_true, owns.symbol, owns.side]
    exact shrinks_of_reduces reduces positive less
  · rw [net, moved, show sagas.get report.cloid = some saga from owns.held]
    simp only [owns.symbol, if_neg other]

/-! ## The book against the net -/

/-- A resting order works a positive size, within the net on its other side if it is
reduce-only and its recheck is not `owed`. -/
structure Fits (sagas : Dict Cloid Order) (reads : Reads) (venue : PaperExchange) (owed : Prop)
    (resting : Resting) : Prop where
  owns : ∃ saga, Owns sagas resting.order.toPlaceOrder saga
  unbooked : Unbooked reads venue resting.order.cloid
  started : 0 ≤ resting.filled
  positive : 0 < resting.remaining
  within : resting.order.reduceOnly = true → ¬ owed →
    venue.reduces reads resting.order.toPlaceOrder = true ∧
      resting.remaining ≤ |venue.net reads resting.order.symbol|

/-- So does every resting order. -/
def Fitted (sagas : Dict Cloid Order) (reads : Reads) (owed : Cloid → Symbol → Prop)
    (venue : PaperExchange) : Prop :=
  ∀ cloid resting, venue.book.get cloid = some resting →
    Fits sagas reads venue (owed cloid resting.order.symbol) resting

/-- Nothing is owed. -/
abbrev settled : Cloid → Symbol → Prop := fun _ _ => False

theorem Fits.congr {venue other : PaperExchange} {owed later : Prop} {resting : Resting}
    (fits : Fits sagas reads venue owed resting) (net : other.net reads = venue.net reads)
    (counts : other.fillCount resting.order.cloid = venue.fillCount resting.order.cloid)
    (owes : owed → later) : Fits sagas reads other later resting := by
  refine ⟨fits.owns, fun number past => fits.unbooked number (counts ▸ past), fits.started,
    fits.positive, fun reduceOnly paid => ?_⟩
  rw [reduces_congr (congrFun net _), congrFun net]
  exact fits.within reduceOnly fun was => paid (owes was)

/-- Orders leave the book, and the venue's net and counts stay. -/
theorem Fitted.leaves {venue other : PaperExchange} {owed later : Cloid → Symbol → Prop}
    (fitted : Fitted sagas reads owed venue) (net : other.net reads = venue.net reads)
    (counts : ∀ cloid, other.fillCount cloid = venue.fillCount cloid)
    (book : ∀ cloid resting, other.book.get cloid = some resting →
      venue.book.get cloid = some resting)
    (owes : ∀ cloid symbol, owed cloid symbol → later cloid symbol) :
    Fitted sagas reads later other := fun cloid resting there =>
  (fitted cloid resting (book cloid resting there)).congr net (counts _) (owes _ _)

theorem Fitted.announce {turn : Turn} {owed : Cloid → Symbol → Prop}
    (fitted : Fitted sagas reads owed turn.venue) (order : PlaceOrder) (status : OrderState)
    (reason : Option String) :
    Fitted sagas reads owed (turn.announce reads order status reason).venue :=
  fitted.leaves rfl (fun _ => rfl) (fun _ _ there => there) fun _ _ was => was

theorem Fitted.remove {turn : Turn} {owed : Cloid → Symbol → Prop}
    (fitted : Fitted sagas reads owed turn.venue) (cloid : Cloid) :
    Fitted sagas reads owed (turn.withBook (turn.venue.book.remove cloid)).venue := by
  refine fitted.leaves rfl (fun _ => rfl) (fun other resting there => ?_) fun _ _ was => was
  replace there : (turn.venue.book.remove cloid).get other = some resting := there
  rw [RestingBook.get_remove] at there
  split at there
  · cases there
  · exact there

/-! ## One fill of a resting order -/

theorem reportFill_fillCount (turn : Turn) (order : PlaceOrder) (fill : Fill) (maker : Bool)
    (cloid : Cloid) : (turn.reportFill config reads order fill maker).venue.fillCount cloid =
      if order.cloid = cloid then turn.venue.fillCount order.cloid + 1
      else turn.venue.fillCount cloid := by
  simp only [Turn.reportFill, PaperExchange.fillCount, PaperExchange.count,
    PaperExchange.fillReport, Dict.get_set]
  split <;> rfl

/-- **What the venue owes after a fill is the recheck of its symbol.** -/
theorem Fitted.reported {turn after : Turn} (fitted : Fitted sagas reads settled turn.venue)
    (order : PlaceOrder)
    (elsewhere : ∀ symbol, symbol ≠ order.symbol →
      after.venue.net reads symbol = turn.venue.net reads symbol)
    (counts : ∀ cloid, order.cloid ≠ cloid →
      after.venue.fillCount cloid = turn.venue.fillCount cloid)
    (others : ∀ cloid, order.cloid ≠ cloid →
      after.venue.book.get cloid = turn.venue.book.get cloid)
    (own : ∀ resting, after.venue.book.get order.cloid = some resting →
      Fits sagas reads after.venue True resting ∧ resting.order.symbol = order.symbol) :
    Fitted sagas reads (fun _ symbol => symbol = order.symbol) after.venue := by
  intro cloid resting there
  by_cases here : order.cloid = cloid
  · subst here
    obtain ⟨fits, symbol⟩ := own resting there
    exact ⟨fits.owns, fits.unbooked, fits.started, fits.positive,
      fun _ unpaid => absurd symbol unpaid⟩
  · have stood := (others cloid here).symm.trans there
    have was := fitted cloid resting stood
    have keyed := turn.venue.book.keyed _ _ stood
    refine ⟨was.owns, fun number past => was.unbooked number ?_, was.started, was.positive,
      fun reduceOnly other => ?_⟩
    · rw [keyed] at past ⊢
      rwa [counts cloid here] at past
    · rw [reduces_congr (elsewhere _ other), elsewhere _ other]
      exact was.within reduceOnly id

theorem takeFill_net (turn : Turn) (order : LimitOrder) (result : BookFill) (price : Decimal)
    (maker : Bool) : (turn.takeFill config reads order result price maker).venue.net reads =
      (turn.reportFill config reads order.toPlaceOrder ⟨result.filled, price⟩ maker).venue.net
        reads := by
  simp only [Turn.takeFill]
  split
  · rfl
  · rfl

theorem takeFill_fillCount (turn : Turn) (order : LimitOrder) (result : BookFill)
    (price : Decimal) (maker : Bool) (cloid : Cloid) :
    (turn.takeFill config reads order result price maker).venue.fillCount cloid =
      if order.cloid = cloid then turn.venue.fillCount order.cloid + 1
      else turn.venue.fillCount cloid := by
  rw [← reportFill_fillCount turn order.toPlaceOrder ⟨result.filled, price⟩ maker cloid]
  simp only [Turn.takeFill]
  split
  · rfl
  · rfl

variable (config) in
/-- **A resting order takes a fill**, and shrinks the net by it if it is reduce-only. -/
theorem Fitted.takeFill {turn : Turn} {resting : Resting} {asked : Decimal} {result : BookFill}
    {book : RestingBook} (fitted : Fitted sagas reads settled turn.venue)
    (there : turn.venue.book.get resting.order.cloid = some resting)
    (applied : turn.venue.book.applyFill resting.order.cloid asked = .ok (result, book))
    (positive : 0 < asked) (price : Decimal) (maker : Bool) :
    (∃ made, Made sagas reads turn ((turn.withBook book).takeFill config reads
        resting.atWorkingSize result price maker) made) ∧
      Fitted sagas reads (fun _ symbol => symbol = resting.order.symbol)
        ((turn.withBook book).takeFill config reads resting.atWorkingSize result price
          maker).venue := by
  have fits := fitted _ _ there
  obtain ⟨saga, owns⟩ := fits.owns
  obtain ⟨held, was, filled, how⟩ := RestingBook.applyFill_cases applied
  rw [there] at was
  cases was
  have size : 0 < result.filled := filled ▸ lt_min positive fits.positive
  have less : result.filled ≤ resting.remaining := filled ▸ min_le_right _ _
  have sized : Owns sagas resting.atWorkingSize.toPlaceOrder saga :=
    ⟨owns.held, owns.symbol, owns.side, owns.reduceOnly⟩
  obtain ⟨⟨made, reported⟩, elsewhere⟩ := Made.reportFill config (turn.withBook book)
    ⟨result.filled, price⟩ sized fits.unbooked size
    (fun reduceOnly => ⟨(fits.within reduceOnly id).1,
      less.trans (fits.within reduceOnly id).2⟩) maker
  refine ⟨⟨made, ?_⟩, ?_⟩
  · have whole := (Made.withBook reads sagas turn book).trans reported
    simp only [Turn.takeFill]
    split
    · have ended := whole.trans (Made.announce reads sagas _ resting.atWorkingSize.toPlaceOrder
        .cancelled (some "reduce-only shrink"))
      rw [List.append_nil] at ended
      exact ended
    · exact whole
  · refine fitted.reported resting.atWorkingSize.toPlaceOrder (fun symbol other => ?_)
      (fun cloid other => ?_) (fun cloid other => ?_) fun left stays => ?_
    · rw [takeFill_net]
      exact elsewhere symbol other
    · rw [takeFill_fillCount]
      exact if_neg other
    · rw [takeFill_book]
      exact RestingBook.get_applyFill_ne applied other
    · rw [takeFill_book] at stays
      replace stays : book.get resting.order.cloid = some left := stays
      rcases how with ⟨_, _, _, rfl⟩ | ⟨short, _, _, rfl⟩
      · rw [RestingBook.get_remove, if_pos rfl] at stays
        cases stays
      · rw [RestingBook.get_write, Resting.fill_order, if_pos rfl] at stays
        cases stays
        refine ⟨⟨⟨saga, owns⟩, fun number past => fits.unbooked number ?_, ?_, ?_,
          fun _ paid => absurd trivial paid⟩, rfl⟩
        · rw [takeFill_fillCount] at past
          have own : resting.atWorkingSize.cloid = (resting.fill asked).order.cloid := rfl
          rw [if_pos own] at past
          exact (Nat.lt_succ_self _).trans past
        · rw [Resting.fill_filled]
          exact add_nonneg fits.started (le_min positive.le fits.positive.le)
        · rw [Resting.fill_remaining, min_eq_left short.le]
          exact sub_pos.mpr short

/-! ## The recheck -/

/-- What is owed while these orders are still to be rechecked. -/
def owing (symbol : Symbol) (rest : List LimitOrder) : Cloid → Symbol → Prop :=
  fun cloid other => other = symbol ∧ cloid ∈ rest.map fun order => order.cloid

/-- The rest of the fold owes what it did, for every other order. -/
theorem Fits.later {venue other : PaperExchange} {symbol : Symbol} {order : LimitOrder}
    {rest : List LimitOrder} {cloid : Cloid} {resting : Resting}
    (fits : Fits sagas reads venue (owing symbol (order :: rest) cloid resting.order.symbol)
      resting)
    (net : other.net reads = venue.net reads)
    (counts : other.fillCount resting.order.cloid = venue.fillCount resting.order.cloid)
    (ne : order.cloid ≠ cloid) :
    Fits sagas reads other (owing symbol rest cloid resting.order.symbol) resting :=
  fits.congr net counts fun owed => ⟨owed.1, (List.mem_cons.mp owed.2).resolve_left (Ne.symm ne)⟩

/-- **One recheck pays for its order.** -/
theorem Fitted.recheck {turn : Turn} {symbol : Symbol} {order : LimitOrder}
    {rest : List LimitOrder} {resting : Resting}
    (fitted : Fitted sagas reads (owing symbol (order :: rest)) turn.venue)
    (there : turn.venue.book.get order.cloid = some resting) (is : order = resting.atWorkingSize) :
    Made sagas reads turn (Turn.recheck reads symbol turn order) [] ∧
      Fitted sagas reads (owing symbol rest) (Turn.recheck reads symbol turn order).venue := by
  have fits := fitted _ _ there
  simp only [Turn.recheck]
  by_cases spared : order.symbol ≠ symbol ∨ order.reduceOnly = false
  · rw [if_pos spared]
    refine ⟨.idle (List.append_nil _).symm rfl rfl, fun cloid other held => ?_⟩
    have was := fitted cloid other held
    by_cases own : order.cloid = cloid
    · subst own
      cases there.symm.trans held
      refine ⟨was.owns, was.unbooked, was.started, was.positive, fun reduceOnly _ => ?_⟩
      refine was.within reduceOnly fun owed => ?_
      rcases spared with elsewhere | plain
      · exact elsewhere ((congrArg (fun o : LimitOrder => o.symbol) is).trans owed.1)
      · have plainly : resting.order.reduceOnly = false :=
          (congrArg (fun o : LimitOrder => o.reduceOnly) is).symm.trans plain
        rw [plainly] at reduceOnly
        cases reduceOnly
    · exact was.later rfl rfl own
  · rw [if_neg spared]
    rw [not_or, not_not] at spared
    have symbols : resting.order.symbol = symbol :=
      (congrArg (fun o : LimitOrder => o.symbol) is).symm.trans spared.1
    by_cases reduces : turn.venue.reduces reads order.toPlaceOrder = true
    · rw [if_pos reduces]
      refine ⟨.withBook reads sagas turn _, fun cloid other held => ?_⟩
      replace held : (turn.venue.book.shrink order.cloid _).get cloid = some other := held
      rw [RestingBook.get_shrink] at held
      split at held
      · rename_i own
        subst own
        rw [there] at held
        cases held
        have nonzero := abs_pos.mpr (net_ne_zero_of_reduces reduces)
        rw [show order.toPlaceOrder.symbol = symbol from spared.1] at nonzero
        refine ⟨fits.owns, fits.unbooked, fits.started, ?_, fun _ _ => ⟨?_, ?_⟩⟩
        · rw [Resting.shrink_remaining]
          exact lt_min fits.positive nonzero
        · rw [is] at reduces
          exact reduces
        · rw [Resting.shrink_remaining, Resting.shrink_order, symbols]
          exact min_le_right _ _
      · rename_i own
        exact (fitted cloid other held).later rfl rfl own
    · rw [if_neg reduces]
      refine ⟨?_, fun cloid other held => ?_⟩
      · exact (Made.withBook reads sagas turn _).trans (.announce reads sagas _ _ _ _)
      · replace held : (turn.venue.book.remove order.cloid).get cloid = some other := held
        rw [RestingBook.get_remove] at held
        split at held
        · cases held
        · rename_i own
          exact (fitted cloid other held).later rfl rfl own

theorem Fitted.foldl_recheck {turn : Turn} {symbol : Symbol} {snapshot : List LimitOrder}
    (fitted : Fitted sagas reads (owing symbol snapshot) turn.venue)
    (nodup : (snapshot.map fun order => order.cloid).Nodup)
    (there : ∀ order ∈ snapshot, ∃ resting, turn.venue.book.get order.cloid = some resting ∧
      order = resting.atWorkingSize) :
    Made sagas reads turn (snapshot.foldl (Turn.recheck reads symbol) turn) [] ∧
      Fitted sagas reads settled (snapshot.foldl (Turn.recheck reads symbol) turn).venue := by
  induction snapshot generalizing turn with
  | nil =>
      refine ⟨.idle (List.append_nil _).symm rfl rfl, fitted.leaves rfl (fun _ => rfl)
        (fun _ _ held => held) fun _ _ owed => ?_⟩
      cases owed.2
  | cons order rest ih =>
      obtain ⟨absent, nodupRest⟩ := List.nodup_cons.mp nodup
      obtain ⟨resting, here, is⟩ := there order List.mem_cons_self
      obtain ⟨one, fits⟩ := fitted.recheck here is
      obtain ⟨others, settles⟩ := ih fits nodupRest fun other member => by
        have ne : order.cloid ≠ other.cloid := fun same =>
          absent (List.mem_map.mpr ⟨other, member, same.symm⟩)
        rw [(Turn.recheck_moves {} reads symbol order here).2 _ ne]
        exact there other (List.mem_cons_of_mem _ member)
      exact ⟨one.trans others, settles⟩

/-- **The recheck pays for all.** -/
theorem Fitted.recheckReduceOnly {turn : Turn} {symbol : Symbol}
    (fitted : Fitted sagas reads (fun _ other => other = symbol) turn.venue) :
    Made sagas reads turn (turn.recheckReduceOnly reads symbol) [] ∧
      Fitted sagas reads settled (turn.recheckReduceOnly reads symbol).venue := by
  refine Fitted.foldl_recheck (fun cloid resting held => ?_) turn.venue.book.resting_nodup
    fun order member => RestingBook.mem_resting member
  refine (fitted cloid resting held).congr rfl rfl fun is => ⟨is, ?_⟩
  refine List.mem_map.mpr ⟨_, RestingBook.resting_mem held, ?_⟩
  exact turn.venue.book.keyed cloid resting held

/-! ## The operations -/

/-- From one point of an operation to a later one: what was made, and a book that fits
the net. -/
structure Keeps (sagas : Dict Cloid Order) (reads : Reads) (turn after : Turn) : Prop where
  made : ∃ made, Made sagas reads turn after made
  fitted : Fitted sagas reads settled after.venue

theorem Keeps.trans {turn middle after : Turn} (one : Keeps sagas reads turn middle)
    (two : Keeps sagas reads middle after) : Keeps sagas reads turn after := by
  obtain ⟨first, made⟩ := one.made
  obtain ⟨second, then_⟩ := two.made
  exact ⟨⟨_, made.trans then_⟩, two.fitted⟩

theorem Keeps.refl {turn : Turn} (fitted : Fitted sagas reads settled turn.venue) :
    Keeps sagas reads turn turn :=
  ⟨⟨[], .idle (List.append_nil _).symm rfl rfl⟩, fitted⟩

theorem Fitted.announced {turn : Turn} (fitted : Fitted sagas reads settled turn.venue)
    (order : PlaceOrder) (status : OrderState) (reason : Option String) :
    Keeps sagas reads turn (turn.announce reads order status reason) :=
  ⟨⟨[], .announce reads sagas turn order status reason⟩, fitted.announce order status reason⟩

theorem Fitted.lifted {turn : Turn} (fitted : Fitted sagas reads settled turn.venue)
    (order : PlaceOrder) (reason : Option String) :
    Keeps sagas reads turn ((turn.withBook (turn.venue.book.remove order.cloid)).announce reads
      order .cancelled reason) :=
  ⟨⟨_, (Made.withBook reads sagas turn _).trans (.announce reads sagas _ _ _ _)⟩,
    (fitted.remove order.cloid).announce order .cancelled reason⟩

/-- **A crossing LIMIT is filled, and the others are rechecked.** -/
theorem Fitted.fillCrossingLimit {turn after : Turn} {resting : Resting} {tick : MarketTick}
    {maker complete : Bool} (fills : model.Fills) (fitted : Fitted sagas reads settled turn.venue)
    (there : turn.venue.book.get resting.order.cloid = some resting)
    (filled : turn.fillCrossingLimit config model reads resting.atWorkingSize tick maker =
      .ok (complete, after)) : Keeps sagas reads turn after := by
  rcases Turn.fillCrossingLimit_cases there filled with
    ⟨_, _, rfl⟩ | ⟨fill, result, book, decided, applied, _, rfl⟩
  · exact .refl fitted
  · have fits := fitted _ _ there
    have sized : 0 < resting.atWorkingSize.quantity := by
      have remains := fits.positive
      have started := fits.started
      simp only [Resting.remaining] at remains
      show 0 < resting.working
      linarith
    obtain ⟨⟨made, took⟩, owed⟩ := fitted.takeFill config there applied
      (fills.positive _ _ _ sized decided) fill.price maker
    obtain ⟨rechecked, settles⟩ := owed.recheckReduceOnly
    exact ⟨⟨_, took.trans rechecked⟩, settles⟩

theorem Fitted.matchOne {turn after : Turn} {tick : MarketTick} {snapshot : LimitOrder}
    (fills : model.Fills) (fitted : Fitted sagas reads settled turn.venue)
    (matched : Turn.matchOne config model reads tick turn snapshot = .ok after) :
    Keeps sagas reads turn after := by
  simp only [Turn.matchOne] at matched
  cases working : turn.venue.book.working snapshot.cloid with
  | none =>
      rw [working] at matched
      cases matched
      exact .refl fitted
  | some order =>
      simp only [working] at matched
      split at matched
      · obtain ⟨_, resting, there, rfl⟩ := RestingBook.working_eq_some working
        have keyed := turn.venue.book.keyed _ _ there
        rw [← keyed] at there
        obtain ⟨complete, between, filled⟩ := turn.fillCrossingLimit_ok config model reads
          tick true there
        rw [filled] at matched
        cases matched
        exact fitted.fillCrossingLimit fills there filled
      · cases matched
        exact .refl fitted

theorem Fitted.foldlM_matchOne {turn after : Turn} {tick : MarketTick} {snapshot : List LimitOrder}
    (fills : model.Fills) (fitted : Fitted sagas reads settled turn.venue)
    (matched : snapshot.foldlM (Turn.matchOne config model reads tick) turn = .ok after) :
    Keeps sagas reads turn after := by
  induction snapshot generalizing turn with
  | nil =>
      cases matched
      exact .refl fitted
  | cons order rest ih =>
      rw [List.foldlM_cons] at matched
      cases first : Turn.matchOne config model reads tick turn order with
      | error violation => rw [first] at matched; cases matched
      | ok between =>
          rw [first] at matched
          have one := fitted.matchOne fills first
          exact one.trans (ih one.fitted matched)

/-- **A tick.** -/
theorem Fitted.matchBook {turn after : Turn} {tick : MarketTick} (fills : model.Fills)
    (fitted : Fitted sagas reads settled turn.venue)
    (matched : turn.matchBook config model reads tick = .ok after) :
    Keeps sagas reads turn after := fitted.foldlM_matchOne fills matched

/-- **A cancel.** -/
theorem Fitted.cancel {turn : Turn} (fitted : Fitted sagas reads settled turn.venue)
    (refs : List CancelRef) : Keeps sagas reads turn (turn.cancel reads refs) := by
  simp only [Turn.cancel]
  induction refs generalizing turn with
  | nil => exact .refl fitted
  | cons ref rest ih =>
      have one : Keeps sagas reads turn (Turn.cancelOne reads turn ref) := by
        cases ref with
        | external symbol venueOid => exact .refl fitted
        | ours ref =>
            simp only [Turn.cancelOne]
            cases there : turn.venue.book.get ref.cloid with
            | none => exact .refl fitted
            | some resting =>
                have keyed := turn.venue.book.keyed _ _ there
                rw [← keyed]
                exact fitted.lifted resting.order.toPlaceOrder none
      exact one.trans (ih one.fitted)

/-! ## A placement -/

/-- The size an order is worked at is positive, and within the net if it is reduce-only. -/
theorem workingSize_within {venue : PaperExchange} {order : PlaceOrder}
    (positive : 0 < order.quantity)
    (lets : order.reduceOnly = true → venue.reduces reads order = true) :
    0 < venue.workingSize reads order ∧ (order.reduceOnly = true →
      venue.workingSize reads order ≤ |venue.net reads order.symbol|) := by
  simp only [PaperExchange.workingSize]
  by_cases reduceOnly : order.reduceOnly = true
  · rw [if_pos reduceOnly]
    exact ⟨lt_min positive (abs_pos.mpr (net_ne_zero_of_reduces (lets reduceOnly))),
      fun _ => min_le_right _ _⟩
  · rw [if_neg reduceOnly]
    exact ⟨positive, fun is => absurd is reduceOnly⟩

/-- A MARKET order is filled at the size the venue works it at. -/
theorem Fitted.placeMarket {turn : Turn} {order : PlaceOrder} {saga : Order} (fills : model.Fills)
    (fitted : Fitted sagas reads settled turn.venue) (owns : Owns sagas order saga)
    (unbooked : Unbooked reads turn.venue order.cloid)
    (fresh : turn.venue.book.get order.cloid = none) (positive : 0 < order.quantity)
    (lets : order.reduceOnly = true → turn.venue.reduces reads order = true) (tick : MarketTick) :
    Keeps sagas reads turn (turn.placeMarket config model reads order tick) := by
  simp only [Turn.placeMarket]
  split
  · exact fitted.announced _ _ _
  · obtain ⟨size, within⟩ := workingSize_within positive lets
    generalize is : ({ order with quantity := turn.venue.workingSize reads order } : PlaceOrder) =
      sized
    have quantity :
        (model.marketFill sized tick).quantity = turn.venue.workingSize reads order := by
      rw [fills.whole, ← is]
    have sizedOwns : Owns sagas sized saga := by
      rw [← is]
      exact ⟨owns.held, owns.symbol, owns.side, owns.reduceOnly⟩
    obtain ⟨⟨made, reported⟩, elsewhere⟩ := Made.reportFill config turn
      (model.marketFill sized tick) sizedOwns (by rw [← is]; exact unbooked) (quantity ▸ size)
      (fun reduceOnly => by
        rw [quantity, ← is]
        rw [← is] at reduceOnly
        exact ⟨lets reduceOnly, within reduceOnly⟩) false
    have cloid : sized.cloid = order.cloid := by rw [← is]
    have symbol : sized.symbol = order.symbol := by rw [← is]
    have market : ∃ made, Made sagas reads turn
        (turn.fillMarket config model reads order tick) made := by
      simp only [Turn.fillMarket, is]
      split
      · exact ⟨_, reported.trans (.announce reads sagas _ _ _ _)⟩
      · exact ⟨_, reported⟩
    have same : (turn.fillMarket config model reads order tick).venue.book = turn.venue.book ∧
        (turn.fillMarket config model reads order tick).venue.net reads =
          (turn.reportFill config reads sized (model.marketFill sized tick) false).venue.net reads ∧
        (turn.fillMarket config model reads order tick).venue.fillCounts =
          (turn.reportFill config reads sized (model.marketFill sized tick)
            false).venue.fillCounts := by
      simp only [Turn.fillMarket, is]
      split
      · exact ⟨rfl, rfl, rfl⟩
      · exact ⟨rfl, rfl, rfl⟩
    obtain ⟨book, net, counts⟩ := same
    have owed : Fitted sagas reads (fun _ other => other = order.symbol)
        (turn.fillMarket config model reads order tick).venue := by
      refine fitted.reported order (fun other ne => ?_) (fun other ne => ?_)
        (fun _ _ => by rw [book]) fun resting there => ?_
      · rw [net]
        exact elsewhere other (symbol ▸ ne)
      · rw [PaperExchange.fillCount, counts]
        exact (reportFill_fillCount turn sized _ false other).trans (if_neg (cloid ▸ ne))
      · rw [book, fresh] at there
        cases there
    obtain ⟨made, did⟩ := market
    obtain ⟨rechecked, settles⟩ := owed.recheckReduceOnly
    exact ⟨⟨_, did.trans rechecked⟩, settles⟩

/-- An order is put on the book at the size the venue works it at. -/
theorem Fitted.rest {turn : Turn} {limit : LimitOrder} {saga : Order} {size : Decimal}
    (fitted : Fitted sagas reads settled turn.venue) (owns : Owns sagas limit.toPlaceOrder saga)
    (unbooked : Unbooked reads turn.venue limit.cloid) (positive : 0 < limit.quantity)
    (sized : 0 < size)
    (within : limit.reduceOnly = true → turn.venue.reduces reads limit.toPlaceOrder = true ∧
      size ≤ |turn.venue.net reads limit.symbol|) :
    Keeps sagas reads turn (turn.withBook (turn.venue.book.rest limit size)) := by
  refine ⟨⟨[], .withBook reads sagas turn _⟩, fun cloid resting there => ?_⟩
  replace there : (turn.venue.book.rest limit size).get cloid = some resting := there
  rw [RestingBook.get_rest] at there
  split at there
  · cases there
    refine ⟨⟨saga, owns⟩, unbooked, le_refl _, ?_, fun reduceOnly _ => ?_⟩
    · rw [Resting.put_remaining]
      exact lt_min sized positive
    · obtain ⟨reduces, less⟩ := within reduceOnly
      rw [Resting.put_remaining]
      exact ⟨reduces, (min_le_left _ _).trans less⟩
  · exact (fitted cloid resting there).congr rfl rfl id

/-- A LIMIT order, filled on arrival or put on the book. -/
theorem Fitted.placeLimit {turn after : Turn} {limit : LimitOrder} {saga : Order}
    {tick : MarketTick} (fills : model.Fills) (fitted : Fitted sagas reads settled turn.venue)
    (owns : Owns sagas limit.toPlaceOrder saga)
    (unbooked : Unbooked reads turn.venue limit.cloid) (positive : 0 < limit.quantity)
    (lets : limit.reduceOnly = true → turn.venue.reduces reads limit.toPlaceOrder = true)
    (placed : turn.placeLimit config model reads limit tick = .ok after) :
    Keeps sagas reads turn after := by
  obtain ⟨size, within⟩ := workingSize_within positive lets
  have rests := fitted.rest owns unbooked positive size
    fun reduceOnly => ⟨lets reduceOnly, within reduceOnly⟩
  simp only [Turn.placeLimit] at placed
  by_cases crossing : PaperExchange.crosses limit tick = true
  · rw [if_pos crossing] at placed
    by_cases maker : limit.postOnly = true
    · rw [if_pos maker] at placed
      cases placed
      exact fitted.announced _ _ _
    · rw [if_neg maker] at placed
      generalize turn.venue.workingSize reads limit.toPlaceOrder = size at placed rests
      have there : (turn.withBook (turn.venue.book.rest limit size)).venue.book.get
          (Resting.put limit size).order.cloid = some (Resting.put limit size) := by
        show (turn.venue.book.rest limit size).get limit.cloid = _
        rw [RestingBook.get_rest, if_pos rfl]
      obtain ⟨complete, between, filled⟩ := Turn.fillCrossingLimit_ok config model reads
        _ tick false there
      rw [filled] at placed
      simp only [Except.map, Except.ok.injEq] at placed
      have took := rests.trans (rests.fitted.fillCrossingLimit fills there filled)
      subst placed
      split
      · exact took
      · split
        · exact took.trans (took.fitted.lifted limit.toPlaceOrder none)
        · split
          · exact took
          · exact took.trans (took.fitted.announced _ _ _)
  · rw [if_neg crossing] at placed
    by_cases ioc : limit.timeInForce = .ioc
    · rw [if_pos ioc] at placed
      cases placed
      exact fitted.announced _ _ _
    · rw [if_neg ioc] at placed
      cases placed
      exact rests.trans (rests.fitted.announced _ _ _)

/-- **A placement.** -/
theorem Fitted.place {turn after : Turn} {order : PlaceOrder} {saga : Order} (fills : model.Fills)
    (fitted : Fitted sagas reads settled turn.venue) (owns : Owns sagas order saga)
    (unbooked : Unbooked reads turn.venue order.cloid)
    (fresh : turn.venue.book.get order.cloid = none) (positive : 0 < order.quantity)
    (placed : turn.place config model reads order = .ok after) : Keeps sagas reads turn after := by
  simp only [Turn.place] at placed
  by_cases refused : order.reduceOnly = true ∧ turn.venue.reduces reads order = false
  · rw [if_pos refused] at placed
    cases placed
    exact fitted.announced _ _ _
  · rw [if_neg refused] at placed
    have lets : order.reduceOnly = true → turn.venue.reduces reads order = true := by
      intro reduceOnly
      by_contra denied
      exact refused ⟨reduceOnly, by simpa using denied⟩
    cases cached : turn.venue.latestTick.get order.symbol with
    | none =>
        rw [cached] at placed
        cases placed
        exact fitted.announced _ _ _
    | some tick =>
        simp only [cached] at placed
        cases kind : order.asLimit with
        | none =>
            rw [kind] at placed
            cases placed
            exact fitted.placeMarket fills owns unbooked fresh positive lets tick
        | some limit =>
            simp only [kind] at placed
            have is := PlaceOrder.asLimit_eq kind
            subst is
            exact fitted.placeLimit fills owns unbooked positive lets placed

end Tickwright.Paper
