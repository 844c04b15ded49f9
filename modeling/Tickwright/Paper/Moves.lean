/-
# Paper.Moves -- what an operation of the paper venue can do

Every operation is a path of three moves (`Move`) over resting orders: one
shrinks, one is lifted off and cancelled, one is filled.  A placement also begins
(`Begins`) by putting its order on the book or filling it as a MARKET order, and
ends (`Ends`) on what it announces of it.

* `Moves.gone`: no move puts an order on the book;
* `matchBook_moves`, `cancel_moves`, `place_path`: the operations, as paths;
* `arrivesPartly`: the placement that rests a partly filled order, which is the
  one branch that announces nothing.
-/
import Tickwright.Paper.Exchange
import Mathlib.Logic.Relation

namespace Tickwright.Paper

open Tickwright.Domain Tickwright.Theory Tickwright.Engine

set_option autoImplicit false

variable {config : PaperConfig} {model : FillModel} {reads : Reads}

/-- A step that is enabled where the code does not raise has its result. -/
theorem ok_of_toOption {ε α : Type} {result : Except ε α} {a : α}
    (some_ : result.toOption = some a) : result = .ok a := by
  cases result with
  | error _ => cases some_
  | ok _ => cases some_; rfl

/-! ## Moves -/

/-- One thing an operation does to resting orders. -/
inductive Move (config : PaperConfig) (reads : Reads) : Turn → Turn → Prop
  | shrink (turn : Turn) (cloid : Cloid) (size : Decimal) :
      Move config reads turn (turn.withBook (turn.venue.book.shrink cloid size))
  | lifted (turn : Turn) (resting : Resting) (order : PlaceOrder) (reason : Option String)
      (there : turn.venue.book.get order.cloid = some resting) :
      Move config reads turn ((turn.withBook (turn.venue.book.remove order.cloid)).announce reads
        order .cancelled reason)
  | filled (turn : Turn) (resting : Resting) (asked price : Decimal) (maker : Bool)
      (result : BookFill) (book : RestingBook)
      (there : turn.venue.book.get resting.order.cloid = some resting)
      (applied : turn.venue.book.applyFill resting.order.cloid asked = .ok (result, book)) :
      Move config reads turn ((turn.withBook book).takeFill config reads resting.atWorkingSize
        result price maker)

/-- A path of moves. -/
abbrev Moves (config : PaperConfig) (reads : Reads) : Turn → Turn → Prop :=
  Relation.ReflTransGen (Move config reads)

/-- What every move keeps, every path keeps. -/
theorem Moves.induct {I : Turn → Prop} {turn after : Turn} (moves : Moves config reads turn after)
    (start : I turn) (keep : ∀ t t', I t → Move config reads t t' → I t') : I after := by
  induction moves with
  | refl => exact start
  | tail _ move ih => exact keep _ _ ih move

theorem takeFill_book (turn : Turn) (order : LimitOrder) (result : BookFill) (price : Decimal)
    (maker : Bool) :
    (turn.takeFill config reads order result price maker).venue.book = turn.venue.book := by
  simp only [Turn.takeFill]
  split <;> rfl

/-- A move rests no order. -/
theorem Move.gone {turn after : Turn} {cloid : Cloid} (move : Move config reads turn after)
    (gone : turn.venue.book.get cloid = none) : after.venue.book.get cloid = none := by
  cases move with
  | shrink other size =>
      show (turn.venue.book.shrink other size).get cloid = none
      rw [RestingBook.get_shrink, gone]
      split <;> rfl
  | lifted resting order reason there =>
      show (turn.venue.book.remove order.cloid).get cloid = none
      rw [RestingBook.get_remove, gone]
      split <;> rfl
  | filled resting asked price maker result book there applied =>
      rw [takeFill_book]
      show book.get cloid = none
      have ne : resting.order.cloid ≠ cloid := by
        intro same
        rw [same, gone] at there
        cases there
      rw [RestingBook.get_applyFill_ne applied ne, gone]

/-- **No move puts an order on the book.** -/
theorem Moves.gone {turn after : Turn} {cloid : Cloid} (moves : Moves config reads turn after)
    (gone : turn.venue.book.get cloid = none) : after.venue.book.get cloid = none :=
  moves.induct (I := fun t => t.venue.book.get cloid = none) gone
    fun _ _ absent move => move.gone absent

/-! ## The recheck -/

namespace Turn

variable (config reads) in
theorem recheck_moves {turn : Turn} {resting : Resting} (symbol : Symbol) (order : LimitOrder)
    (there : turn.venue.book.get order.cloid = some resting) :
    Moves config reads turn (turn.recheck reads symbol order) ∧
      ∀ other, order.cloid ≠ other →
        (turn.recheck reads symbol order).venue.book.get other = turn.venue.book.get other := by
  simp only [recheck]
  split
  · exact ⟨.refl, fun _ _ => rfl⟩
  · split
    · refine ⟨.single (.shrink turn order.cloid _), fun other ne => ?_⟩
      show (turn.venue.book.shrink order.cloid _).get other = _
      rw [RestingBook.get_shrink, if_neg ne]
    · refine ⟨.single (.lifted turn resting order.toPlaceOrder _ there), fun other ne => ?_⟩
      show (turn.venue.book.remove order.cloid).get other = _
      rw [RestingBook.get_remove, if_neg ne]

theorem foldl_recheck_moves {turn : Turn} {symbol : Symbol} {snapshot : List LimitOrder}
    (nodup : (snapshot.map fun order => order.cloid).Nodup)
    (there : ∀ order ∈ snapshot, ∃ resting, turn.venue.book.get order.cloid = some resting) :
    Moves config reads turn (snapshot.foldl (recheck reads symbol) turn) := by
  induction snapshot generalizing turn with
  | nil => exact .refl
  | cons order rest ih =>
      obtain ⟨absent, nodupRest⟩ := List.nodup_cons.mp nodup
      obtain ⟨resting, here⟩ := there order List.mem_cons_self
      obtain ⟨first, others⟩ := recheck_moves config reads symbol order here
      refine first.trans (ih nodupRest fun other member => ?_)
      have ne : order.cloid ≠ other.cloid := fun same =>
        absent (List.mem_map.mpr ⟨other, member, same.symm⟩)
      rw [others _ ne]
      exact there other (List.mem_cons_of_mem _ member)

variable (config reads) in
theorem recheckReduceOnly_moves (turn : Turn) (symbol : Symbol) :
    Moves config reads turn (turn.recheckReduceOnly reads symbol) :=
  foldl_recheck_moves turn.venue.book.resting_nodup fun order member => by
    obtain ⟨resting, there, _⟩ := RestingBook.mem_resting member
    exact ⟨resting, there⟩

/-- A recheck fills nothing: what an order it leaves has filled is what it had. -/
theorem recheckReduceOnly_filled {turn : Turn} {symbol : Symbol} {cloid : Cloid} {after : Resting}
    (there : (turn.recheckReduceOnly reads symbol).venue.book.get cloid = some after) :
    ∃ before, turn.venue.book.get cloid = some before ∧ after.filled = before.filled := by
  simp only [recheckReduceOnly] at there
  generalize turn.venue.book.resting = snapshot at there
  induction snapshot generalizing turn with
  | nil => exact ⟨after, there, rfl⟩
  | cons order rest ih =>
      obtain ⟨between, held, same⟩ := ih there
      simp only [recheck] at held
      split at held
      · exact ⟨between, held, same⟩
      · split at held
        · replace held : (turn.venue.book.shrink order.cloid _).get cloid = some between := held
          rw [RestingBook.get_shrink] at held
          split at held
          · obtain ⟨before, was, rfl⟩ := Option.map_eq_some_iff.mp held
            exact ⟨before, was, same⟩
          · exact ⟨between, held, same⟩
        · replace held : (turn.venue.book.remove order.cloid).get cloid = some between := held
          rw [RestingBook.get_remove] at held
          split at held
          · cases held
          · exact ⟨between, held, same⟩

/-! ## One crossing LIMIT -/

/-- **What filling a crossing LIMIT does**: nothing on a queue miss, else one fill
and what follows from it.  It reports completion only for an order that left. -/
theorem fillCrossingLimit_cases {turn after : Turn} {resting : Resting} {tick : MarketTick}
    {maker complete : Bool} (there : turn.venue.book.get resting.order.cloid = some resting)
    (filled : turn.fillCrossingLimit config model reads resting.atWorkingSize tick maker =
      .ok (complete, after)) :
    (model.limitFill resting.atWorkingSize tick = none ∧ complete = false ∧ after = turn) ∨
    ∃ fill result book,
      model.limitFill resting.atWorkingSize tick = some fill ∧
      turn.venue.book.applyFill resting.order.cloid fill.quantity = .ok (result, book) ∧
      complete = result.complete ∧
      after = ((turn.withBook book).takeFill config reads resting.atWorkingSize result fill.price
        maker).recheckReduceOnly reads resting.atWorkingSize.symbol := by
  simp only [fillCrossingLimit] at filled
  cases decided : model.limitFill resting.atWorkingSize tick with
  | none =>
      rw [decided] at filled
      cases filled
      exact Or.inl ⟨rfl, rfl, rfl⟩
  | some fill =>
      obtain ⟨result, book, applied⟩ := RestingBook.applyFill_ok fill.quantity there
      have here : turn.venue.book.applyFill resting.atWorkingSize.cloid fill.quantity =
          .ok (result, book) := applied
      simp only [decided, here, Except.map, Except.ok.injEq, Prod.mk.injEq] at filled
      obtain ⟨rfl, rfl⟩ := filled
      exact Or.inr ⟨fill, result, book, rfl, applied, rfl, rfl⟩

variable (config model reads) in
/-- A fill lands on any order that rests. -/
theorem fillCrossingLimit_ok (turn : Turn) {resting : Resting} (tick : MarketTick) (maker : Bool)
    (there : turn.venue.book.get resting.order.cloid = some resting) :
    ∃ complete after,
      turn.fillCrossingLimit config model reads resting.atWorkingSize tick maker =
        .ok (complete, after) := by
  simp only [fillCrossingLimit]
  cases model.limitFill resting.atWorkingSize tick with
  | none => exact ⟨_, _, rfl⟩
  | some fill =>
      obtain ⟨result, book, applied⟩ := RestingBook.applyFill_ok fill.quantity there
      have here : turn.venue.book.applyFill resting.atWorkingSize.cloid fill.quantity =
          .ok (result, book) := applied
      simp only [here]
      exact ⟨_, _, rfl⟩

theorem fillCrossingLimit_moves {turn after : Turn} {resting : Resting} {tick : MarketTick}
    {maker complete : Bool} (there : turn.venue.book.get resting.order.cloid = some resting)
    (filled : turn.fillCrossingLimit config model reads resting.atWorkingSize tick maker =
      .ok (complete, after)) :
    Moves config reads turn after ∧
      (complete = true → after.venue.book.get resting.order.cloid = none) := by
  rcases fillCrossingLimit_cases there filled with
    ⟨_, rfl, rfl⟩ | ⟨fill, result, book, _, applied, rfl, rfl⟩
  · exact ⟨.refl, fun done => by cases done⟩
  · have first : Move config reads turn _ :=
      .filled turn resting fill.quantity fill.price maker result book there applied
    have rechecked := recheckReduceOnly_moves config reads
      ((turn.withBook book).takeFill config reads resting.atWorkingSize result fill.price maker)
      resting.atWorkingSize.symbol
    refine ⟨(Relation.ReflTransGen.single first).trans rechecked, fun done => ?_⟩
    refine rechecked.gone ?_
    rw [takeFill_book]
    obtain ⟨held, _, _, ⟨_, _, _, rfl⟩ | ⟨_, short, _, _⟩⟩ := RestingBook.applyFill_cases applied
    · show (turn.venue.book.remove resting.order.cloid).get resting.order.cloid = none
      rw [RestingBook.get_remove, if_pos rfl]
    · rw [short] at done
      cases done

/-! ## The book against a tick -/

theorem matchOne_moves {turn after : Turn} {tick : MarketTick} {snapshot : LimitOrder}
    (matched : matchOne config model reads tick turn snapshot = .ok after) :
    Moves config reads turn after := by
  simp only [matchOne] at matched
  cases working : turn.venue.book.working snapshot.cloid with
  | none => rw [working] at matched; cases matched; exact .refl
  | some order =>
      simp only [working] at matched
      split at matched
      · obtain ⟨_, resting, there, rfl⟩ := RestingBook.working_eq_some working
        have keyed := turn.venue.book.keyed _ _ there
        rw [← keyed] at there
        obtain ⟨complete, between, filled⟩ := turn.fillCrossingLimit_ok config model reads
          tick true there
        rw [filled] at matched
        cases matched
        exact (fillCrossingLimit_moves there filled).1
      · cases matched
        exact .refl

theorem foldlM_matchOne_moves {turn after : Turn} {tick : MarketTick} {snapshot : List LimitOrder}
    (matched : snapshot.foldlM (matchOne config model reads tick) turn = .ok after) :
    Moves config reads turn after := by
  induction snapshot generalizing turn with
  | nil => cases matched; exact .refl
  | cons order rest ih =>
      rw [List.foldlM_cons] at matched
      cases first : matchOne config model reads tick turn order with
      | error violation => rw [first] at matched; cases matched
      | ok between =>
          rw [first] at matched
          exact (matchOne_moves first).trans (ih matched)

theorem matchBook_moves {turn after : Turn} {tick : MarketTick}
    (matched : turn.matchBook config model reads tick = .ok after) :
    Moves config reads turn after := foldlM_matchOne_moves matched

theorem cancelOne_moves (turn : Turn) (ref : CancelRef) :
    Moves config reads turn (cancelOne reads turn ref) := by
  cases ref with
  | external symbol venueOid => exact .refl
  | ours ref =>
      simp only [cancelOne]
      cases there : turn.venue.book.get ref.cloid with
      | none => exact .refl
      | some resting =>
          have keyed := turn.venue.book.keyed _ _ there
          rw [← keyed] at there ⊢
          exact .single (.lifted turn resting resting.order.toPlaceOrder none there)

theorem cancel_moves (turn : Turn) (refs : List CancelRef) :
    Moves config reads turn (turn.cancel reads refs) := by
  simp only [cancel]
  induction refs generalizing turn with
  | nil => exact .refl
  | cons ref rest ih => exact (cancelOne_moves turn ref).trans (ih _)

/-! ## A placement -/

end Turn

/-- **The placement that rests a partly filled order**: a GTC LIMIT that crosses on
arrival, is not refused, and is filled by less than the size the venue works it
at.  Such an order is announced by no status. -/
def arrivesPartly (model : FillModel) (venue : PaperExchange) (reads : Reads)
    (order : PlaceOrder) : Bool :=
  !(order.reduceOnly && !venue.reduces reads order) &&
    (venue.latestTick.get order.symbol).any fun tick =>
      order.asLimit.any fun limit =>
        let rested := Resting.put limit (venue.workingSize reads order)
        PaperExchange.crosses limit tick && !limit.postOnly && decide (limit.timeInForce = .gtc) &&
          (model.limitFill rested.atWorkingSize tick).any fun fill =>
            decide (0 < fill.quantity ∧ fill.quantity < rested.remaining)

/-- How a placement begins: the order is put on the book, or filled as a MARKET
order, or neither. -/
inductive Begins (config : PaperConfig) (model : FillModel) (reads : Reads) (turn : Turn)
    (order : PlaceOrder) : Turn → Prop
  | neither : Begins config model reads turn order turn
  | rests (limit : LimitOrder) (is : limit.toPlaceOrder = order) :
      Begins config model reads turn order
        (turn.withBook (turn.venue.book.rest limit (turn.venue.workingSize reads order)))
  | market (tick : MarketTick) (kind : order.asLimit = none) :
      Begins config model reads turn order (turn.fillMarket config model reads order tick)

/-- How a placement ends: in silence, on a `LIVE`, or on the terminal status of an
order that is off the book by then. -/
inductive Ends (reads : Reads) (turn : Turn) (order : PlaceOrder) : Turn → Prop
  | silent : Ends reads turn order turn
  | live : Ends reads turn order (turn.announce reads order .live none)
  | refused (status : OrderState) (reason : Option String)
      (terminal : status = .rejected ∨ status = .failed ∨ status = .cancelled)
      (gone : turn.venue.book.get order.cloid = none) :
      Ends reads turn order (turn.announce reads order status reason)
  | dropped : Ends reads turn order
      ((turn.withBook (turn.venue.book.remove order.cloid)).announce reads order .cancelled none)

/-- What a placement comes to: its cloid is answered by `LIVE` or rests no more. -/
def Settled (turn : Turn) (cloid : Cloid) : Prop :=
  turn.venue.book.get cloid = none ∨
    ∃ report, turn.venue.statuses.get cloid = some report ∧ report.status = .live

theorem settled_live (turn : Turn) (order : PlaceOrder) :
    Settled (turn.announce reads order .live none) order.cloid :=
  Or.inr ⟨_, Dict.get_set_self .., rfl⟩

theorem settled_dropped (turn : Turn) (order : PlaceOrder) :
    Settled ((turn.withBook (turn.venue.book.remove order.cloid)).announce reads order .cancelled
      none) order.cloid := by
  refine Or.inl ?_
  show (turn.venue.book.remove order.cloid).get order.cloid = none
  rw [RestingBook.get_remove, if_pos rfl]

/-- A placement as a path: how it begins, what it does to resting orders, how it
ends. -/
structure PlacePath (config : PaperConfig) (model : FillModel) (reads : Reads) (turn : Turn)
    (order : PlaceOrder) (after : Turn) : Prop where
  path : ∃ start last, Begins config model reads turn order start ∧
    Moves config reads start last ∧ Ends reads last order after
  comes : Settled after order.cloid ∨ arrivesPartly model turn.venue reads order = true

namespace Turn

theorem placeMarket_path {turn : Turn} {order : PlaceOrder} {tick : MarketTick}
    (kind : order.asLimit = none) (fresh : turn.venue.book.get order.cloid = none) :
    PlacePath config model reads turn order
      (turn.placeMarket config model reads order tick) := by
  simp only [placeMarket]
  split
  · exact ⟨⟨turn, turn, .neither, .refl, .refused _ _ (Or.inl rfl) fresh⟩,
      Or.inl (Or.inl fresh)⟩
  · have moves := recheckReduceOnly_moves config reads
      (turn.fillMarket config model reads order tick) order.symbol
    have off : (turn.fillMarket config model reads order tick).venue.book.get order.cloid =
        none := by
      simp only [fillMarket]
      split <;> exact fresh
    exact ⟨⟨_, _, .market tick kind, moves, .silent⟩, Or.inl (Or.inl (moves.gone off))⟩

/-- **A LIMIT placement, as a path.**  Only a partial fill on arrival leaves a GTC
order resting in silence. -/
theorem placeLimit_path {turn after : Turn} {limit : LimitOrder} {tick : MarketTick}
    (cached : turn.venue.latestTick.get limit.symbol = some tick)
    (kind : limit.toPlaceOrder.asLimit = some limit)
    (lets : (limit.reduceOnly && !turn.venue.reduces reads limit.toPlaceOrder) = false)
    (fresh : turn.venue.book.get limit.cloid = none)
    (placed : turn.placeLimit config model reads limit tick = .ok after) :
    PlacePath config model reads turn limit.toPlaceOrder after := by
  simp only [placeLimit] at placed
  by_cases crossing : PaperExchange.crosses limit tick = true
  · rw [if_pos crossing] at placed
    by_cases maker : limit.postOnly = true
    · rw [if_pos maker] at placed
      cases placed
      exact ⟨⟨turn, turn, .neither, .refl, .refused _ _ (Or.inl rfl) fresh⟩,
        Or.inl (Or.inl fresh)⟩
    · rw [if_neg maker] at placed
      have begins : Begins config model reads turn limit.toPlaceOrder _ := .rests limit rfl
      generalize sized : turn.venue.workingSize reads limit.toPlaceOrder = size at placed begins
      have there : (turn.withBook (turn.venue.book.rest limit size)).venue.book.get
          (Resting.put limit size).order.cloid = some (Resting.put limit size) := by
        show (turn.venue.book.rest limit size).get limit.cloid = _
        rw [RestingBook.get_rest, if_pos rfl]
      obtain ⟨complete, between, filled⟩ := fillCrossingLimit_ok config model reads
        _ tick false there
      rw [filled] at placed
      simp only [Except.map, Except.ok.injEq] at placed
      obtain ⟨moves, lifted⟩ := fillCrossingLimit_moves there filled
      cases complete with
      | true =>
          rw [if_pos rfl] at placed
          subst placed
          exact ⟨⟨_, _, begins, moves, .silent⟩, Or.inl (Or.inl (lifted rfl))⟩
      | false =>
          rw [if_neg (by decide)] at placed
          by_cases ioc : limit.timeInForce = .ioc
          · rw [if_pos ioc] at placed
            subst placed
            exact ⟨⟨_, _, begins, moves, .dropped⟩,
              Or.inl (settled_dropped between limit.toPlaceOrder)⟩
          · rw [if_neg ioc] at placed
            by_cases touched : between.venue.book.hasPartial limit.cloid = true
            · rw [if_pos touched] at placed
              subst placed
              refine ⟨⟨_, _, begins, moves, .silent⟩, Or.inr ?_⟩
              simp only [RestingBook.hasPartial, Option.any_eq_true, decide_eq_true_eq] at touched
              obtain ⟨left, held, positive⟩ := touched
              rcases fillCrossingLimit_cases there filled with
                ⟨_, _, rfl⟩ | ⟨fill, result, book, decided, applied, short, rfl⟩
              · have untouched := there.symm.trans held
                cases untouched
                exact absurd positive (lt_irrefl 0)
              · obtain ⟨before, held, same⟩ := recheckReduceOnly_filled held
                rw [same] at positive
                rw [takeFill_book] at held
                replace held : book.get limit.cloid = some before := held
                obtain ⟨first, was, _, ⟨_, whole, _, _⟩ | ⟨part, _, _, rfl⟩⟩ :=
                  RestingBook.applyFill_cases applied
                · rw [whole] at short
                  cases short
                · rw [there] at was
                  cases was
                  rw [RestingBook.get_write, Resting.fill_order, Resting.put_order,
                    if_pos rfl] at held
                  cases held
                  rw [Resting.fill_filled, min_eq_left part.le] at positive
                  have started : 0 < fill.quantity := by simpa [Resting.put] using positive
                  have gtc : limit.timeInForce = .gtc := by
                    cases held : limit.timeInForce with
                    | gtc => rfl
                    | ioc => exact absurd held ioc
                  rw [Resting.put_remaining, lt_min_iff] at part
                  simpa [arrivesPartly, lets, cached, kind, crossing, maker, gtc, sized, decided,
                    started] using part
            · rw [if_neg touched] at placed
              subst placed
              exact ⟨⟨_, _, begins, moves, .live⟩, Or.inl (settled_live between limit.toPlaceOrder)⟩
  · rw [if_neg crossing] at placed
    by_cases ioc : limit.timeInForce = .ioc
    · rw [if_pos ioc] at placed
      cases placed
      exact ⟨⟨turn, turn, .neither, .refl, .refused _ _ (Or.inr (Or.inr rfl)) fresh⟩,
        Or.inl (Or.inl fresh)⟩
    · rw [if_neg ioc] at placed
      cases placed
      exact ⟨⟨_, _, .rests limit rfl, .refl, .live⟩, Or.inl (settled_live _ limit.toPlaceOrder)⟩

/-- **A placement, as a path.**  Its order is announced or off the book at the end,
unless it arrived partly filled. -/
theorem place_path {turn after : Turn} {order : PlaceOrder}
    (fresh : turn.venue.book.get order.cloid = none)
    (placed : turn.place config model reads order = .ok after) :
    PlacePath config model reads turn order after := by
  simp only [place] at placed
  by_cases refused : order.reduceOnly = true ∧ turn.venue.reduces reads order = false
  · rw [if_pos refused] at placed
    cases placed
    exact ⟨⟨turn, turn, .neither, .refl, .refused _ _ (Or.inl rfl) fresh⟩, Or.inl (Or.inl fresh)⟩
  · rw [if_neg refused] at placed
    cases cached : turn.venue.latestTick.get order.symbol with
    | none =>
        rw [cached] at placed
        cases placed
        exact ⟨⟨turn, turn, .neither, .refl, .refused _ _ (Or.inr (Or.inl rfl)) fresh⟩,
          Or.inl (Or.inl fresh)⟩
    | some tick =>
        simp only [cached] at placed
        cases kind : order.asLimit with
        | none =>
            rw [kind] at placed
            cases placed
            exact placeMarket_path kind fresh
        | some limit =>
            simp only [kind] at placed
            have is := PlaceOrder.asLimit_eq kind
            subst is
            have lets : (limit.reduceOnly && !turn.venue.reduces reads limit.toPlaceOrder) =
                false := by
              by_contra denied
              simp only [Bool.not_eq_false, Bool.and_eq_true, Bool.not_eq_true'] at denied
              exact refused denied
            exact placeLimit_path cached kind lets fresh placed

end Turn

/-- What hearing a fill can do: nothing, or book one it has not counted on the order
that rests under its cloid. -/
theorem onFillReport_ok {venue heard : PaperExchange} {report : FillReport}
    (hears : venue.onFillReport report = .ok heard) :
    heard = venue ∨ ∃ number, ∃ order : LimitOrder, ∃ book, fillNumber report = some number ∧
      venue.fillCount report.cloid < number ∧
      heard = ({ venue with book := book } : PaperExchange).count report number
        order.side := by
  simp only [PaperExchange.onFillReport] at hears
  cases named : fillNumber report with
  | none =>
      rw [named] at hears
      cases hears
      exact .inl rfl
  | some number =>
      simp only [named] at hears
      split at hears
      · cases hears
        exact .inl rfl
      · rename_i fresh
        cases working : venue.book.working report.cloid with
        | none =>
            rw [working] at hears
            cases hears
            exact .inl rfl
        | some order =>
            obtain ⟨_, resting, there, _⟩ := RestingBook.working_eq_some working
            obtain ⟨result, book, applied⟩ := RestingBook.applyFill_ok report.quantity there
            simp only [working, applied, Except.map, Except.ok.injEq] at hears
            exact .inr ⟨number, order, book, rfl, not_le.mp fresh, hears.symm⟩

end Tickwright.Paper
