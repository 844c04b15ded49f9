/-
# Paper.Uncrossed -- the paper book against the last tick

A tick fills every resting order it crosses, and a placement is filled or dropped before
it rests where the cached tick crosses it.  So with a fill model that fills whole, no
order rests at a price the last tick of its symbol trades at, and every bid rests below
every ask (`Clear`).

A fill can lift or shrink orders a tick has yet to look at.  What an operation `Leaves`
is what was there, the orders and their fills unchanged, so what it has looked at stays
clear.

* `matchBook_clears`, `place_clears`: a tick and a placement;
* `book_uncrossed`: every run, over restarts and re-delivered fills.
-/
import Tickwright.Paper.Ghosts

namespace Tickwright.Paper

open Tickwright.Domain Tickwright.Theory Tickwright.Engine

set_option autoImplicit false

variable {config : PaperConfig} {model : FillModel} {reads : Reads}

/-! ## What rests -/

/-- A model that misses no LIMIT order, and fills all it is asked for. -/
def FillModel.Whole (model : FillModel) : Prop :=
  ∀ order tick, ∃ fill, model.limitFill order tick = some fill ∧ order.quantity ≤ fill.quantity

theorem immediate_whole : immediateFillModel.Whole := fun order _ =>
  ⟨⟨order.quantity, order.price⟩, rfl, le_refl _⟩

/-- An order that may rest beside these ticks: good till cancelled, and not crossed by
the last one in its symbol. -/
structure Resting.Waits (ticks : Dict Symbol MarketTick) (resting : Resting) : Prop where
  gtc : resting.order.timeInForce = .gtc
  started : 0 ≤ resting.filled
  uncrossed : ∀ tick, ticks.get resting.order.symbol = some tick →
    PaperExchange.crosses resting.order tick = false

/-- Every order on the book waits. -/
def Clear (venue : PaperExchange) : Prop :=
  ∀ cloid resting, venue.book.get cloid = some resting → resting.Waits venue.latestTick

/-- Every order of the later book was on the earlier one, filled as far as it is. -/
def Leaves (before after : RestingBook) : Prop :=
  ∀ cloid later, after.get cloid = some later → ∃ earlier, before.get cloid = some earlier ∧
    later.order = earlier.order ∧ later.filled = earlier.filled

namespace Leaves

variable {before middle after : RestingBook}

theorem refl (book : RestingBook) : Leaves book book := fun _ later there =>
  ⟨later, there, rfl, rfl⟩

theorem trans (first : Leaves before middle) (second : Leaves middle after) :
    Leaves before after := by
  intro cloid later there
  obtain ⟨between, held, order, filled⟩ := second cloid later there
  obtain ⟨earlier, was, orders, fills⟩ := first cloid between held
  exact ⟨earlier, was, order.trans orders, filled.trans fills⟩

theorem shrink (book : RestingBook) (cloid : Cloid) (size : Decimal) :
    Leaves book (book.shrink cloid size) := by
  intro other later there
  rw [RestingBook.get_shrink] at there
  split at there
  · obtain ⟨earlier, was, rfl⟩ := Option.map_eq_some_iff.mp there
    exact ⟨earlier, was, rfl, rfl⟩
  · exact ⟨later, there, rfl, rfl⟩

theorem remove (book : RestingBook) (cloid : Cloid) : Leaves book (book.remove cloid) := by
  intro other later there
  rw [RestingBook.get_remove] at there
  split at there
  · cases there
  · exact ⟨later, there, rfl, rfl⟩

/-- What has left stays away. -/
theorem gone (leaves : Leaves before after) (cloid : Cloid) (absent : before.get cloid = none) :
    after.get cloid = none := by
  cases there : after.get cloid with
  | none => rfl
  | some later =>
      obtain ⟨earlier, was, _⟩ := leaves cloid later there
      rw [absent] at was
      cases was

end Leaves

/-- A waiting order waits on, shrunk or not. -/
theorem Resting.Waits.kept {ticks : Dict Symbol MarketTick} {earlier later : Resting}
    (waits : earlier.Waits ticks) (order : later.order = earlier.order)
    (filled : later.filled = earlier.filled) : later.Waits ticks := by
  refine ⟨by rw [order]; exact waits.gtc, by rw [filled]; exact waits.started, ?_⟩
  rw [order]
  exact waits.uncrossed

theorem Clear.leaves {before after : PaperExchange} (clear : Clear before)
    (leaves : Leaves before.book after.book) (ticks : after.latestTick = before.latestTick) :
    Clear after := by
  intro cloid later there
  obtain ⟨earlier, was, order, filled⟩ := leaves cloid later there
  rw [ticks]
  exact (clear cloid earlier was).kept order filled

/-- **No bid rests at or above an ask**, once the symbol has a tick. -/
theorem Clear.bids_below_asks {venue : PaperExchange} (clear : Clear venue) {one other : Cloid}
    {bid ask : Resting} (bids : venue.book.get one = some bid)
    (asks : venue.book.get other = some ask) (buys : bid.order.side = .buy)
    (sells : ask.order.side = .sell) (same : bid.order.symbol = ask.order.symbol)
    {tick : MarketTick} (cached : venue.latestTick.get bid.order.symbol = some tick) :
    bid.order.price < ask.order.price := by
  have below := (clear one bid bids).uncrossed tick cached
  have above := (clear other ask asks).uncrossed tick (same ▸ cached)
  simp only [PaperExchange.crosses, buys, decide_eq_false_iff_not, not_le] at below
  simp only [PaperExchange.crosses, sells, decide_eq_false_iff_not, not_le] at above
  exact below.trans above

/-! ## A tick -/

/-- No move caches a tick. -/
theorem Move.latestTick {turn after : Turn} (move : Move config reads turn after) :
    after.venue.latestTick = turn.venue.latestTick := by
  cases move with
  | shrink cloid size => rfl
  | lifted resting order reason there => rfl
  | filled resting asked price maker result book there applied =>
      simp only [Turn.takeFill]
      split <;> rfl

theorem Moves.latestTick {turn after : Turn} (moves : Moves config reads turn after) :
    after.venue.latestTick = turn.venue.latestTick :=
  moves.induct (I := fun t => t.venue.latestTick = turn.venue.latestTick) rfl
    fun _ _ same move => move.latestTick.trans same

namespace Turn

theorem recheck_leaves (turn : Turn) (symbol : Symbol) (order : LimitOrder) :
    Leaves turn.venue.book (turn.recheck reads symbol order).venue.book := by
  simp only [recheck]
  split
  · exact .refl _
  · split
    · exact Leaves.shrink _ _ _
    · exact Leaves.remove _ _

variable (reads) in
theorem recheckReduceOnly_leaves (turn : Turn) (symbol : Symbol) :
    Leaves turn.venue.book (turn.recheckReduceOnly reads symbol).venue.book := by
  simp only [recheckReduceOnly]
  generalize turn.venue.book.resting = snapshot
  induction snapshot generalizing turn with
  | nil => exact .refl _
  | cons order rest ih => exact (recheck_leaves turn symbol order).trans (ih _)

/-- **A crossing LIMIT is filled whole**, and leaves the others as they were. -/
theorem fillCrossingLimit_whole {turn after : Turn} {resting : Resting} {tick : MarketTick}
    {maker complete : Bool} (whole : model.Whole) (started : 0 ≤ resting.filled)
    (there : turn.venue.book.get resting.order.cloid = some resting)
    (filled : turn.fillCrossingLimit config model reads resting.atWorkingSize tick maker =
      .ok (complete, after)) :
    complete = true ∧ Leaves (turn.venue.book.remove resting.order.cloid) after.venue.book := by
  obtain ⟨asked, decided, covers⟩ := whole resting.atWorkingSize tick
  rcases fillCrossingLimit_cases there filled with
    ⟨missed, _, _⟩ | ⟨fill, result, book, took, applied, rfl, rfl⟩
  · rw [decided] at missed
    cases missed
  · rw [decided] at took
    cases took
    have leaves := recheckReduceOnly_leaves reads
      ((turn.withBook book).takeFill config reads resting.atWorkingSize result asked.price maker)
      resting.atWorkingSize.symbol
    rw [takeFill_book] at leaves
    obtain ⟨held, was, _, ⟨_, complete, _, rfl⟩ | ⟨short, _, _, _⟩⟩ :=
      RestingBook.applyFill_cases applied
    · exact ⟨complete, leaves⟩
    · rw [there] at was
      cases was
      -- the model filled the working size, and the rest of it is no more than that
      have rest : resting.remaining ≤ resting.working := by
        rw [Resting.remaining]
        exact sub_le_self _ started
      exact absurd (short.trans_le rest) (not_lt.mpr covers)

/-- **Looking at one order** leaves it off the book or uncrossed. -/
theorem matchOne_clears {turn after : Turn} {tick : MarketTick} {snapshot : LimitOrder}
    (whole : model.Whole)
    (started : ∀ cloid resting, turn.venue.book.get cloid = some resting → 0 ≤ resting.filled)
    (matched : matchOne config model reads tick turn snapshot = .ok after) :
    Leaves turn.venue.book after.venue.book ∧
      ∀ resting, after.venue.book.get snapshot.cloid = some resting →
        resting.order.symbol = tick.symbol → PaperExchange.crosses resting.order tick = false := by
  simp only [matchOne] at matched
  cases working : turn.venue.book.working snapshot.cloid with
  | none =>
      rw [working] at matched
      cases matched
      refine ⟨.refl _, fun resting there => ?_⟩
      simp only [RestingBook.working, there] at working
      cases working
  | some order =>
      simp only [working] at matched
      obtain ⟨own, resting, there, rfl⟩ := RestingBook.working_eq_some working
      split at matched
      · have keyed := turn.venue.book.keyed _ _ there
        rw [← keyed] at there ⊢
        obtain ⟨complete, between, filled⟩ := turn.fillCrossingLimit_ok config model reads
          tick true there
        rw [filled] at matched
        cases matched
        obtain ⟨_, leaves⟩ := fillCrossingLimit_whole whole (started _ _ there) there filled
        refine ⟨(Leaves.remove _ _).trans leaves, fun later held => ?_⟩
        have gone := leaves.gone resting.order.cloid
          (by rw [RestingBook.get_remove, if_pos rfl])
        rw [gone] at held
        cases held
      · rename_i apart
        cases matched
        refine ⟨.refl _, fun later held symbol => ?_⟩
        rw [there] at held
        cases held
        by_contra crosses
        rw [Bool.not_eq_false] at crosses
        exact apart ⟨symbol, crosses⟩

/-- What of the snapshot has been looked at stays off the book or uncrossed. -/
theorem foldlM_matchOne_clears {turn after : Turn} {tick : MarketTick}
    {snapshot : List LimitOrder} (whole : model.Whole)
    (started : ∀ cloid resting, turn.venue.book.get cloid = some resting → 0 ≤ resting.filled)
    (matched : snapshot.foldlM (matchOne config model reads tick) turn = .ok after) :
    Leaves turn.venue.book after.venue.book ∧
      ∀ order ∈ snapshot, ∀ resting, after.venue.book.get order.cloid = some resting →
        resting.order.symbol = tick.symbol → PaperExchange.crosses resting.order tick = false := by
  induction snapshot generalizing turn with
  | nil =>
      cases matched
      exact ⟨.refl _, fun _ member => by cases member⟩
  | cons order rest ih =>
      rw [List.foldlM_cons] at matched
      cases first : matchOne config model reads tick turn order with
      | error violation => rw [first] at matched; cases matched
      | ok between =>
          rw [first] at matched
          obtain ⟨leaves, here⟩ := matchOne_clears whole started first
          obtain ⟨later, others⟩ := ih (fun cloid resting there => by
            obtain ⟨earlier, was, _, same⟩ := leaves cloid resting there
            rw [same]
            exact started cloid earlier was) matched
          refine ⟨leaves.trans later, fun other member resting there symbol => ?_⟩
          rcases List.mem_cons.mp member with rfl | member
          · obtain ⟨earlier, was, same, _⟩ := later _ resting there
            rw [same] at symbol ⊢
            exact here earlier was symbol
          · exact others other member resting there symbol

/-- **A tick leaves the book clear of itself.** -/
theorem matchBook_clears {turn after : Turn} {tick : MarketTick} (whole : model.Whole)
    (waits : ∀ cloid resting, turn.venue.book.get cloid = some resting →
      resting.order.timeInForce = .gtc ∧ 0 ≤ resting.filled ∧
        (resting.order.symbol ≠ tick.symbol → resting.Waits turn.venue.latestTick))
    (cached : turn.venue.latestTick.get tick.symbol = some tick)
    (matched : turn.matchBook config model reads tick = .ok after) : Clear after.venue := by
  obtain ⟨leaves, looked⟩ := foldlM_matchOne_clears whole
    (fun cloid resting there => (waits cloid resting there).2.1) matched
  have ticks := (matchBook_moves matched).latestTick
  intro cloid later there
  obtain ⟨earlier, was, order, filled⟩ := leaves cloid later there
  obtain ⟨gtc, started, apart⟩ := waits cloid earlier was
  rw [ticks]
  by_cases symbol : earlier.order.symbol = tick.symbol
  · refine ⟨by rw [order]; exact gtc, by rw [filled]; exact started, fun last here => ?_⟩
    rw [order, symbol, cached] at here
    cases here
    have snapshot := looked _ (RestingBook.resting_mem was) later
    have keyed := turn.venue.book.keyed cloid earlier was
    refine snapshot ?_ (by rw [order]; exact symbol)
    show after.venue.book.get earlier.order.cloid = some later
    rw [keyed]
    exact there
  · exact (apart symbol).kept order filled

/-! ## A placement and a cancel -/

/-- An order put on a clear book where the last tick does not cross it. -/
theorem rest_clear {venue : PaperExchange} (clear : Clear venue) {order : LimitOrder}
    (size : Decimal) (waits : (Resting.put order size).Waits venue.latestTick) :
    Clear { venue with book := venue.book.rest order size } := by
  intro cloid resting there
  replace there : (venue.book.rest order size).get cloid = some resting := there
  rw [RestingBook.get_rest] at there
  split at there
  · cases there
    exact waits
  · exact clear cloid resting there

/-- **A LIMIT placement leaves the book clear.** -/
theorem placeLimit_clears {turn after : Turn} {limit : LimitOrder} {tick : MarketTick}
    (whole : model.Whole) (clear : Clear turn.venue)
    (cached : turn.venue.latestTick.get limit.symbol = some tick)
    (placed : turn.placeLimit config model reads limit tick = .ok after) : Clear after.venue := by
  simp only [placeLimit] at placed
  split at placed
  · split at placed
    · cases placed
      exact clear.leaves (.refl _) rfl
    · generalize turn.venue.workingSize reads limit.toPlaceOrder = size at placed
      have there : (turn.withBook (turn.venue.book.rest limit size)).venue.book.get
          (Resting.put limit size).order.cloid = some (Resting.put limit size) := by
        show (turn.venue.book.rest limit size).get limit.cloid = _
        rw [RestingBook.get_rest, if_pos rfl]
      obtain ⟨complete, between, filled⟩ := fillCrossingLimit_ok config model reads
        _ tick false there
      obtain ⟨done, leaves⟩ := fillCrossingLimit_whole whole (le_refl 0) there filled
      have ticks := (fillCrossingLimit_moves there filled).1.latestTick
      rw [filled] at placed
      simp only [Except.map, done, if_true, Except.ok.injEq] at placed
      subst placed
      refine clear.leaves (fun cloid later held => ?_) ticks
      -- its own order left, and what else is there was on the book before it
      obtain ⟨earlier, was, same⟩ := leaves cloid later held
      rw [RestingBook.get_remove] at was
      split at was
      · cases was
      · rename_i other
        replace was : (turn.venue.book.rest limit size).get cloid = some earlier := was
        rw [RestingBook.get_rest] at was
        exact ⟨earlier, (if_neg other).symm.trans was, same⟩
  · rename_i apart
    split at placed
    · cases placed
      exact clear.leaves (.refl _) rfl
    · rename_i notIoc
      cases placed
      have gtc : limit.timeInForce = .gtc := by
        cases is : limit.timeInForce with
        | gtc => rfl
        | ioc => exact absurd is notIoc
      refine (rest_clear clear (turn.venue.workingSize reads limit.toPlaceOrder)
        ⟨gtc, le_refl 0, fun last here => ?_⟩).leaves (.refl _) rfl
      replace here : turn.venue.latestTick.get limit.symbol = some last := here
      rw [cached] at here
      cases here
      exact Bool.not_eq_true _ ▸ apart

/-- **A placement leaves the book clear.** -/
theorem place_clears {turn after : Turn} {order : PlaceOrder} (whole : model.Whole)
    (clear : Clear turn.venue) (placed : turn.place config model reads order = .ok after) :
    Clear after.venue := by
  simp only [place] at placed
  split at placed
  · cases placed
    exact clear.leaves (.refl _) rfl
  · cases cached : turn.venue.latestTick.get order.symbol with
    | none =>
        rw [cached] at placed
        cases placed
        exact clear.leaves (.refl _) rfl
    | some tick =>
        simp only [cached] at placed
        cases kind : order.asLimit with
        | none =>
            rw [kind] at placed
            cases placed
            simp only [placeMarket]
            split
            · exact clear.leaves (.refl _) rfl
            · have filled : Clear (turn.fillMarket config model reads order tick).venue := by
                refine clear.leaves ?_ ?_
                · simp only [fillMarket]
                  split <;> exact .refl _
                · simp only [fillMarket]
                  split <;> rfl
              exact filled.leaves (recheckReduceOnly_leaves reads _ _)
                (recheckReduceOnly_moves config reads _ _).latestTick
        | some limit =>
            simp only [kind] at placed
            rw [← PlaceOrder.asLimit_eq kind] at cached
            exact placeLimit_clears whole clear cached placed

theorem cancel_clears {turn : Turn} (clear : Clear turn.venue) (refs : List CancelRef) :
    Clear (turn.cancel reads refs).venue := by
  simp only [cancel]
  induction refs generalizing turn with
  | nil => exact clear
  | cons ref rest ih =>
      refine ih ?_
      cases ref with
      | external symbol venueOid => exact clear
      | ours ref =>
          simp only [cancelOne]
          split
          · exact clear
          · exact clear.leaves (.remove _ _) rfl

end Turn

/-! ## A fill of an earlier run, and a restart -/

/-- Hearing a fill leaves the orders on the book, or books it on one. -/
theorem onFillReport_clears {venue heard : PaperExchange} {report : FillReport}
    (clear : Clear venue) (sized : 0 ≤ report.quantity)
    (hears : venue.onFillReport report = .ok heard) : Clear heard := by
  simp only [PaperExchange.onFillReport] at hears
  split at hears
  · cases hears
    exact clear
  · split at hears
    · cases hears
      exact clear
    · split at hears
      · cases hears
        exact clear
      · rename_i working
        obtain ⟨own, resting, there, rfl⟩ := RestingBook.working_eq_some working
        obtain ⟨result, book, applied⟩ := RestingBook.applyFill_ok report.quantity there
        simp only [applied, Except.map, Except.ok.injEq] at hears
        subst hears
        obtain ⟨held, was, _, ⟨_, _, _, rfl⟩ | ⟨part, _, _, rfl⟩⟩ :=
          RestingBook.applyFill_cases applied
        · exact clear.leaves (.remove _ _) rfl
        · rw [there] at was
          cases was
          have waits := clear _ _ there
          intro cloid later found
          replace found : (venue.book.write (resting.fill report.quantity)).get cloid =
            some later := found
          rw [RestingBook.get_write] at found
          split at found
          · cases found
            refine ⟨waits.gtc, ?_, waits.uncrossed⟩
            rw [Resting.fill_filled, min_eq_left part.le]
            exact add_nonneg waits.started sized
          · exact clear cloid later found

/-- An order put back before any tick waits. -/
theorem rebuild_clears {venue after : PaperExchange} {saga : Order} (clear : Clear venue)
    (quiet : venue.latestTick = Dict.empty) (gtc : saga.timeInForce = some .gtc)
    (rebuilds : PaperExchange.rebuild reads venue saga = .ok after) :
    Clear after ∧ after.latestTick = Dict.empty := by
  simp only [PaperExchange.rebuild] at rebuilds
  cases built : placeOrderOf saga with
  | error violation => rw [built] at rebuilds; cases rebuilds
  | ok request =>
      simp only [built] at rebuilds
      cases kind : request.asLimit with
      | none => rw [kind] at rebuilds; cases rebuilds
      | some limit =>
          simp only [kind, Except.ok.injEq] at rebuilds
          subst rebuilds
          obtain ⟨_, _, _, _, force, _⟩ := placeOrderOf_terms built
          have is := PlaceOrder.asLimit_eq kind
          subst is
          rw [gtc, Option.some.injEq] at force
          refine ⟨(Turn.rest_clear clear (venue.workingSize reads limit.toPlaceOrder)
            ⟨force, le_refl 0, fun tick here => ?_⟩).leaves (.refl _) rfl, quiet⟩
          rw [quiet] at here
          cases here

/-- **A restart puts back what is good till cancelled**, before any tick. -/
theorem start_clears {venue : PaperExchange} {rows : List Order}
    (starts : PaperExchange.start reads {} rows = .ok venue) : Clear venue := by
  have each : ∀ saga ∈ PaperExchange.restingOrders rows, saga.timeInForce = some .gtc := by
    intro saga member
    have fits := (List.mem_filter.mp member).2
    simp only [Bool.and_eq_true, decide_eq_true_eq] at fits
    exact fits.2
  have folded : ∀ (rows : List Order) (opened : PaperExchange), Clear opened →
      opened.latestTick = Dict.empty → (∀ saga ∈ rows, saga.timeInForce = some .gtc) →
      rows.foldlM (PaperExchange.rebuild reads) opened = .ok venue → Clear venue := by
    intro rows
    induction rows with
    | nil =>
        intro opened clear _ _ starts
        cases starts
        exact clear
    | cons saga rest ih =>
        intro opened clear quiet each starts
        rw [List.foldlM_cons] at starts
        cases first : PaperExchange.rebuild reads opened saga with
        | error violation => rw [first] at starts; cases starts
        | ok between =>
            rw [first] at starts
            obtain ⟨clears, still⟩ :=
              rebuild_clears clear quiet (each saga List.mem_cons_self) first
            exact ih between clears still
              (fun other member => each other (List.mem_cons_of_mem _ member)) starts
  have empty : Clear {} := fun _ _ there => by cases there
  exact folded _ {} empty rfl each starts

/-! ## The run -/

/-- The steps of a venue whose model fills whole.  What the bus delivers again is a fill
of no negative size that `Redelivers`: one the saga has booked, or the next in number and
no larger than what the venue has filled under that number. -/
def Prompt (desk : Desk) : DeskLabel → Prop
  | .place _ _ _ _ model _ | .tick _ model _ => model.Whole
  | .redeliver report _ => Redelivers desk report ∧ 0 ≤ report.quantity
  | .cancel _ _ | .dispatch _ | .read _ | .conclude _ _ _ _ | .restart _ => True

/-- An order filled whole does not arrive partly filled. -/
theorem not_arrivesPartly {venue : PaperExchange} (whole : model.Whole) (order : PlaceOrder) :
    arrivesPartly model venue reads order = false := by
  by_contra partly
  simp only [Bool.not_eq_false, arrivesPartly, Bool.and_eq_true, Option.any_eq_true,
    decide_eq_true_eq] at partly
  obtain ⟨_, tick, _, limit, _, _, fill, decided, _, short⟩ := partly
  obtain ⟨asked, fills, covers⟩ :=
    whole (Resting.put limit (venue.workingSize reads order)).atWorkingSize tick
  rw [decided] at fills
  cases fills
  rw [Resting.put_remaining] at short
  exact absurd short (not_lt.mpr covers)

theorem Prompt.answerable {config : DeskConfig} {desk : Desk} {label : DeskLabel}
    (prompt : Prompt desk label) : Answerable config desk label := by
  cases label with
  | place signal quantity price basis model nowNs =>
      exact fun request _ _ => not_arrivesPartly prompt request
  | redeliver report nowNs => exact prompt.1
  | _ => trivial

/-- The venue has counted the fill at the front of the bus, or its order rests no more. -/
theorem Orderly.front_heard {exempt : Cloid → Prop} {desk : Desk} (orderly : Orderly exempt desk)
    {fill : FillReport} {rest : List ExecutionReport} (front : desk.pending = .fill fill :: rest)
    {heard : PaperExchange} (hears : desk.venue.onFillReport fill = .ok heard) :
    heard = desk.venue := by
  cases held : desk.sagas.get fill.cloid with
  | none =>
      have here : ExecutionReport.fill fill ∈ desk.pending := by
        rw [front]
        exact List.mem_cons_self
      exact absurd rfl ((orderly.unknown _ held).1 _ here)
  | some order =>
      have flows := orderly.flows _ _ held
      rw [front] at flows
      have keyed : order.cloid = fill.cloid := orderly.keyed _ _ held
      have landing : desk.landing order =
          ((tallyOf order).next fill.cloid (.fill fill)).after fill.cloid rest := by
        rw [Desk.landing, front, keyed]
        rfl
      have grows := @Tally.booked_le_after fill.cloid
        ((tallyOf order).next fill.cloid (.fill fill)) rest
      have least := @Tally.booked_le_after fill.cloid (tallyOf order) [.fill fill]
      rw [← landing] at grows
      obtain ⟨number, named, old⟩ : ∃ number, fill.tradeId = tradeId fill.cloid number ∧
          number ≤ (desk.landing order).booked := by
        rcases flows.1 rfl with ⟨number, _, old, named⟩ | ⟨named, _, _⟩
        · exact ⟨number, named, (old.trans least).trans grows⟩
        · have next : ((tallyOf order).next fill.cloid (.fill fill)).booked =
              (tallyOf order).booked + 1 := congrArg Tally.booked (if_pos ⟨rfl, named⟩)
          exact ⟨_, named, next ▸ grows⟩
      rcases onFillReport_cases named hears with
        ⟨_, same⟩ | ⟨fresh, resting, _, _, _, there, _, _⟩
      · exact same
      · obtain ⟨saga, known, backed⟩ := orderly.backed _ resting there
        rw [held] at known
        cases known
        have counted := backed.counted
        rw [keyed] at counted
        omega

/-- What holds between two steps. -/
structure Quoted (desk : Desk) : Prop where
  orderly : Orderly (fun _ => False) desk
  clear : Clear desk.venue

/-- Booking a report on a saga leaves the venue as it heard it. -/
theorem booked_venue {desk after : Desk} {report : ExecutionReport} {cloid : Cloid}
    {order : Order} {nowNs : Nanos}
    (booked : (absorb order report nowNs).map (desk.book cloid order) = .ok after) :
    after.venue = desk.venue := by
  cases absorbed : absorb order report nowNs with
  | error violation => rw [absorbed] at booked; cases booked
  | ok next =>
      rw [absorbed] at booked
      cases booked
      rfl

/-- Handling a report leaves the venue, or lets it hear a fill. -/
theorem handle_venue {desk after : Desk} {report : ExecutionReport} {nowNs : Nanos}
    (handled : desk.handle report nowNs = .ok after) :
    after.venue = desk.venue ∨
      ∃ fill, report = .fill fill ∧ desk.venue.onFillReport fill = .ok after.venue := by
  cases report with
  | status report =>
      simp only [Desk.handle] at handled
      split at handled
      · cases handled
        exact .inl rfl
      · exact .inl (booked_venue handled)
  | refused cloid symbol =>
      simp only [Desk.handle] at handled
      split at handled
      · cases handled
        exact .inl rfl
      · exact .inl (booked_venue handled)
  | fill fill =>
      simp only [Desk.handle] at handled
      split at handled
      · cases handled
      · rename_i heard hears
        refine .inr ⟨fill, rfl, ?_⟩
        split at handled
        · cases handled
          exact hears
        · rw [booked_venue handled]
          exact hears

variable {config : DeskConfig}

/-- **One step keeps the book clear.** -/
theorem step_quoted {desk after : Desk} {label : DeskLabel} (quoted : Quoted desk)
    (prompt : Prompt desk label) (stepped : (deskMachine config).step desk label = some after) :
    Quoted after := by
  refine ⟨step_orderly quoted.orderly prompt.answerable stepped, ?_⟩
  have clear := quoted.clear
  simp only [deskMachine] at stepped
  cases label with
  | place signal quantity price basis model nowNs =>
      dsimp only at stepped
      split at stepped
      · cases stepped
      · cases new : desk.sagas.get (config.deriveCloid signal.signalId) with
        | some known =>
            rw [new] at stepped
            cases stepped
            exact clear
        | none =>
            simp only [new, Option.bind_eq_some_iff, Option.map_eq_some_iff] at stepped
            obtain ⟨request, built, turn, placed, rfl⟩ := stepped
            have idle : Clear ({ venue := desk.venue } : Turn).venue := clear
            exact Turn.place_clears prompt idle (ok_of_toOption placed)
  | cancel refs nowNs =>
      cases stepped
      have idle : Clear ({ venue := desk.venue } : Turn).venue := clear
      exact Turn.cancel_clears idle refs
  | tick tick model nowNs =>
      simp only [Option.map_eq_some_iff] at stepped
      obtain ⟨turn, ticked, rfl⟩ := stepped
      refine Turn.matchBook_clears prompt (fun cloid resting there => ?_)
        (Dict.get_set_self desk.venue.latestTick tick.symbol tick) (ok_of_toOption ticked)
      have waits := clear cloid resting there
      refine ⟨waits.gtc, waits.started, fun other => ⟨waits.gtc, waits.started,
        fun last here => ?_⟩⟩
      exact waits.uncrossed last ((Dict.get_set_ne _ _ (Ne.symm other)).symm.trans here)
  | dispatch nowNs =>
      cases front : desk.pending with
      | nil => rw [front] at stepped; cases stepped
      | cons report rest =>
          simp only [front] at stepped
          rcases handle_venue (ok_of_toOption stepped) with same | ⟨fill, rfl, hears⟩
          · rw [same]
            exact clear
          · rw [quoted.orderly.front_heard front hears]
            exact clear
  | redeliver report nowNs =>
      rcases handle_venue (ok_of_toOption stepped) with same | ⟨fill, is, hears⟩
      · rw [same]
        exact clear
      · cases is
        exact onFillReport_clears clear prompt.2 hears
  | read cloid =>
      dsimp only at stepped
      split at stepped
      · cases stepped
        exact clear
      · cases stepped
  | conclude cloid view conclusion nowNs =>
      dsimp only at stepped
      split at stepped
      · obtain ⟨order, _, rfl⟩ := Option.map_eq_some_iff.mp stepped
        exact clear
      · cases stepped
  | restart nowNs =>
      obtain ⟨venue, starts, rfl⟩ := Option.map_eq_some_iff.mp stepped
      exact start_clears (ok_of_toOption starts)

/-- **Nothing rests where the market trades.**  In every run of a desk whose fill models
fill whole, over placements, ticks, cancels, handled reports, fills re-delivered as
`Prompt` says, reconciliation passes and restarts, every resting order is good till cancelled and not
crossed by its symbol's last tick, and every bid rests below every ask of a symbol that
has one. -/
theorem book_uncrossed {desk last : Desk} {labels : List DeskLabel} (opens : desk.Opens)
    (prompt : (deskMachine config).Meets Prompt desk labels)
    (ran : (deskMachine config).run desk labels = some last) :
    (∀ cloid resting, last.venue.book.get cloid = some resting →
      resting.order.timeInForce = .gtc ∧
        ∀ tick, last.venue.latestTick.get resting.order.symbol = some tick →
          PaperExchange.crosses resting.order tick = false) ∧
    ∀ one other bid ask, last.venue.book.get one = some bid →
      last.venue.book.get other = some ask → bid.order.side = .buy → ask.order.side = .sell →
      bid.order.symbol = ask.order.symbol →
      (last.venue.latestTick.get bid.order.symbol).isSome = true →
        bid.order.price < ask.order.price := by
  have empty : Clear desk.venue := by
    rw [opens.venue]
    exact fun _ _ there => by cases there
  have quoted := Machine.run_induct_of Prompt Quoted
    (fun kept prompt stepped => step_quoted kept prompt stepped) ⟨opens.orderly, empty⟩ prompt ran
  refine ⟨fun cloid resting there => ?_,
    fun one other bid ask bids asks buys sells same cached => ?_⟩
  · have waits := quoted.clear cloid resting there
    exact ⟨waits.gtc, waits.uncrossed⟩
  · obtain ⟨tick, here⟩ := Option.isSome_iff_exists.mp cached
    exact quoted.clear.bids_below_asks bids asks buys sells same here

namespace Sample

def quotes : DeskConfig where
  deriveCloid signal := if signal.seq = 1 then "0x21" else "0x22"
  reconcile := { inflightMaxAttempts := 3, ghostGraceNs := 90, recentOrderProtectionNs := 10 }

/-- Four at nine, or at eleven. -/
def quoteOf (side : Side) (seq : ℕ) (price : Decimal) : PlaceSignal where
  strategyId := ⟨"quoter", by decide⟩
  symbol := "SOL"
  seq := seq
  side := side
  quantity := 4
  orderType := .limit
  timeInForce := .gtc
  price := some price

def solAt (price : Decimal) (nowNs : Nanos) : DeskLabel :=
  .tick { symbol := "SOL", price := price } immediateFillModel nowNs

/-- What the tick at nine filled. -/
def bidFilled : FillReport where
  cloid := "0x21"
  symbol := "SOL"
  tradeId := "0x21-1"
  quantity := 4
  price := 9
  fee := 0

/-- Both sides rest around the market, which comes to the bid.  The process ends before
the fill is handled, and the bus delivers it to the next one. -/
def quoted : List DeskLabel :=
  [solAt 10 1, .place (quoteOf .buy 1 9) 4 (some 9) none immediateFillModel 2,
    .place (quoteOf .sell 2 11) 4 (some 11) none immediateFillModel 3, .dispatch 4, .dispatch 5,
    solAt 9 6, .restart 7, .redeliver bidFilled 8, solAt 10 9]

/-- The ask still rests at the end, above the market. -/
theorem ask_uncrossed : ∃ last, (deskMachine quotes).run {} quoted = some last ∧
    (last.venue.book.get "0x21").isNone = true ∧
    ∃ ask tick, last.venue.book.get "0x22" = some ask ∧
      last.venue.latestTick.get ask.order.symbol = some tick ∧
      PaperExchange.crosses ask.order tick = false := by
  have rests : ((deskMachine quotes).run {} quoted).map (fun last =>
      ((last.venue.book.get "0x21").isNone, (last.venue.book.get "0x22").any fun ask =>
        (last.venue.latestTick.get ask.order.symbol).isSome)) = some (true, true) := by
    decide +kernel
  have checked : (deskMachine quotes).checks fits {} quoted = true := by decide +kernel
  have prompt : (deskMachine quotes).Meets Prompt {} quoted := by
    refine Machine.meets_of_checks_mem (fun before label member fit => ?_) checked
    simp only [quoted, solAt, List.mem_cons, List.not_mem_nil, or_false] at member
    rcases member with rfl | rfl | rfl | rfl | rfl | rfl | rfl | rfl | rfl
    all_goals first
      | exact immediate_whole
      | trivial
      | exact ⟨answerable_of_fits fit, by decide +kernel⟩
  obtain ⟨last, ran, is⟩ := Option.map_eq_some_iff.mp rests
  simp only [Prod.mk.injEq, Option.any_eq_true, Option.isSome_iff_exists] at is
  obtain ⟨gone, ask, there, tick, cached⟩ := is
  have opens : Desk.Opens {} := ⟨rfl, rfl, rfl, fun _ _ held => (by cases held),
    fun _ _ held => (by cases held)⟩
  have clear := (book_uncrossed opens prompt ran).1 "0x22" ask there
  exact ⟨last, ran, gone, ask, tick, there, cached, clear.2 tick cached⟩

end Sample

end Tickwright.Paper
