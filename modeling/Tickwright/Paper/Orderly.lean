/-
# Paper.Orderly -- what the desk keeps of a resting order

An order rests while the venue works it, and while it does the rest of the desk
must be ready for what it may do next.  `Orderly` says so:

* what the bus will book of it (`Desk.landing`) is what the venue has counted,
  leaves it open, and leaves room for all it still works (`Backed`);
* the venue answers for it with a working status;
* a reading taken while it rested answers for it too, and what that reading
  replays is booked by then (`Vouched`).

Every move of an operation keeps it (`Orderly.moves`), and so do a placement as it
begins and ends, the report at the front of the bus (`Orderly.dispatches`), and a
fill of an earlier run (`Orderly.redelivers`).
-/
import Tickwright.Paper.Desk

namespace Tickwright.Paper

open Tickwright.Domain Tickwright.Theory Tickwright.Engine

set_option autoImplicit false

/-! ## What is kept -/

namespace Desk

/-- The tally of a saga once the bus is empty. -/
def landing (desk : Desk) (order : Order) : Tally :=
  (tallyOf order).after order.cloid desk.pending

/-- A fill the saga of `cloid` has booked by the time the bus is empty. -/
def Landed (desk : Desk) (cloid : Cloid) (fill : FillReport) : Prop :=
  fill.cloid = cloid ∧ ∃ order, desk.sagas.get cloid = some order ∧
    ∃ number, 1 ≤ number ∧ number ≤ (desk.landing order).booked ∧
      fill.tradeId = tradeId cloid number

end Desk

/-- What backs a resting order: the bus will book all the venue has counted, and
leaves the order open with room for all it still works. -/
structure Backed (desk : Desk) (resting : Resting) (order : Order) : Prop where
  counted : desk.venue.fillCount order.cloid = (desk.landing order).booked
  lasts : (desk.landing order).ended = false
  short : (desk.landing order).cum < order.quantity
  within : resting.remaining ≤ order.quantity - (desk.landing order).cum

/-- What a reading says of a cloid, and goes on to say while it is held. -/
structure Vouched (desk : Desk) (cloid : Cloid) (view : VenueOrderView) : Prop where
  known : (desk.sagas.get cloid).isSome = true
  answers : (desk.venue.book.get cloid).isSome = true →
    ∃ report, view.status = some report ∧ report.status.isWorking = true
  named : ∀ report, view.status = some report → report.cloid = cloid
  fills : ∀ fill ∈ view.fills, desk.Landed cloid fill

/-- What every step keeps, the orders that `exempt` names aside. -/
structure Orderly (exempt : Cloid → Prop) (desk : Desk) : Prop where
  keyed : ∀ c order, desk.sagas.get c = some order → order.cloid = c
  counted : ∀ c order, desk.sagas.get c = some order → Counted order
  flows : ∀ c order, desk.sagas.get c = some order →
    Tally.Flows c order.quantity (tallyOf order) desk.pending
  backed : ∀ c resting, desk.venue.book.get c = some resting →
    ∃ order, desk.sagas.get c = some order ∧ Backed desk resting order
  answered : ∀ c resting, desk.venue.book.get c = some resting → ¬ exempt c →
    ∃ report, desk.venue.statuses.get c = some report ∧ report.status.isWorking = true
  named : ∀ c report, desk.venue.statuses.get c = some report → report.cloid = c
  remembered : ∀ c, ∀ fill ∈ desk.venue.fillsOf c, desk.Landed c fill
  readings : ∀ c view, (c, view) ∈ desk.readings → Vouched desk c view
  unknown : ∀ c, desk.sagas.get c = none →
    (∀ report ∈ desk.pending, reaches report ≠ c) ∧ desk.venue.fillCounts.get c = none

namespace Orderly

variable {exempt : Cloid → Prop} {desk : Desk}

/-- No order rests without a saga. -/
theorem fresh (orderly : Orderly exempt desk) {c : Cloid} (new : desk.sagas.get c = none) :
    desk.venue.book.get c = none := by
  cases there : desk.venue.book.get c with
  | none => rfl
  | some resting =>
      obtain ⟨order, held, _⟩ := orderly.backed c resting there
      rw [new] at held
      cases held

/-! ## The book -/

/-- **Orders leave the book, or work less than they did.** -/
theorem withBook (orderly : Orderly exempt desk) (book : RestingBook)
    (less : ∀ c after, book.get c = some after → ∃ before, desk.venue.book.get c = some before ∧
      after.remaining ≤ before.remaining) :
    Orderly exempt { desk with venue := { desk.venue with book := book } } := by
  refine ⟨orderly.keyed, orderly.counted, orderly.flows, fun c after there => ?_,
    fun c after there free => ?_, orderly.named, orderly.remembered, fun c view held => ?_,
    orderly.unknown⟩
  · obtain ⟨before, was, remaining⟩ := less c after there
    obtain ⟨order, held, backed⟩ := orderly.backed c before was
    exact ⟨order, held, backed.counted, backed.lasts, backed.short, remaining.trans backed.within⟩
  · obtain ⟨before, was, _⟩ := less c after there
    exact orderly.answered c before was free
  · have vouched := orderly.readings c view held
    refine ⟨vouched.known, fun rests => vouched.answers ?_, vouched.named, vouched.fills⟩
    obtain ⟨after, there⟩ := Option.isSome_iff_exists.mp rests
    obtain ⟨before, was, _⟩ := less c after there
    rw [was]
    rfl

theorem shrink (orderly : Orderly exempt desk) (cloid : Cloid) (size : Decimal) :
    Orderly exempt { desk with venue := { desk.venue with
      book := desk.venue.book.shrink cloid size } } := by
  refine orderly.withBook _ fun c after there => ?_
  rw [RestingBook.get_shrink] at there
  split at there
  · obtain ⟨before, was, rfl⟩ := Option.map_eq_some_iff.mp there
    refine ⟨before, was, ?_⟩
    rw [Resting.shrink_remaining]
    exact min_le_left _ _
  · exact ⟨after, there, le_refl _⟩

theorem remove (orderly : Orderly exempt desk) (cloid : Cloid) :
    Orderly exempt { desk with venue := { desk.venue with
      book := desk.venue.book.remove cloid } } := by
  refine orderly.withBook _ fun c after there => ?_
  rw [RestingBook.get_remove] at there
  split at there
  · cases there
  · exact ⟨after, there, le_refl _⟩

/-! ## The bus -/

end Orderly

/-- A report that books nothing new and ends no resting order. -/
def Harmless (desk : Desk) (cloid : Cloid) : ExecutionReport → Prop
  | .status report => report.cloid = cloid ∧
      (report.status.isTerminal = true → desk.venue.book.get cloid = none)
  | .fill fill => desk.Landed cloid fill
  | .refused c _ => c = cloid

theorem Harmless.reaches {desk : Desk} {cloid : Cloid} {report : ExecutionReport}
    (harmless : Harmless desk cloid report) : Engine.reaches report = cloid := by
  cases report with
  | status report => exact harmless.1
  | fill fill => exact harmless.1
  | refused c symbol => exact harmless

namespace Orderly

variable {exempt : Cloid → Prop} {desk : Desk}

/-- What a harmless report behind the bus does to where a saga lands. -/
theorem landing_put {cloid : Cloid} {report : ExecutionReport}
    (harmless : Harmless desk cloid report) {c : Cloid} {order : Order}
    (held : desk.sagas.get c = some order) :
    (desk.landing order).Meets c order.quantity report ∧
      ((desk.landing order).next c report).booked = (desk.landing order).booked ∧
      ((desk.landing order).next c report).cum = (desk.landing order).cum ∧
      ((desk.venue.book.get c).isSome = true → (desk.landing order).ended = false →
        ((desk.landing order).next c report).ended = false) := by
  by_cases other : Engine.reaches report = c
  · have same : c = cloid := other.symm.trans harmless.reaches
    subst same
    cases report with
    | refused _ symbol => exact ⟨trivial, rfl, rfl, fun _ lasts => lasts⟩
    | status report =>
        refine ⟨trivial, ?_⟩
        simp only [Tally.next]
        split
        · rename_i ends
          refine ⟨rfl, rfl, fun rests _ => ?_⟩
          rw [harmless.2 ends.2] at rests
          cases rests
        · exact ⟨rfl, rfl, fun _ lasts => lasts⟩
    | fill fill =>
        obtain ⟨_, saga, there, number, positive, old, is⟩ := harmless
        rw [held] at there
        cases there
        have stays : (desk.landing order).next c (.fill fill) = desk.landing order := by
          refine if_neg fun fresh => ?_
          have numbers := tradeId_inj (is.symm.trans fresh.2)
          omega
        rw [stays]
        exact ⟨fun _ => .inl ⟨number, positive, old, is⟩, rfl, rfl, fun _ lasts => lasts⟩
  · rw [Tally.next_ne other]
    exact ⟨Tally.meets_ne other, rfl, rfl, fun _ lasts => lasts⟩

/-- What has landed by then stays landed. -/
theorem landed_put (orderly : Orderly exempt desk) {cloid : Cloid} {report : ExecutionReport}
    (harmless : Harmless desk cloid report) {c : Cloid} {fill : FillReport}
    (landed : desk.Landed c fill) :
    Desk.Landed { desk with pending := desk.pending ++ [report] } c fill := by
  obtain ⟨same, order, held, number, positive, old, is⟩ := landed
  refine ⟨same, order, held, number, positive, ?_, is⟩
  have put := (landing_put harmless held).2.1
  simp only [Desk.landing, orderly.keyed c order held] at put old ⊢
  rw [Tally.after_append, Tally.after_cons, Tally.after_nil, put]
  exact old

/-- **A harmless report is put behind the bus.** -/
theorem put (orderly : Orderly exempt desk) {cloid : Cloid} {report : ExecutionReport}
    (known : (desk.sagas.get cloid).isSome = true) (harmless : Harmless desk cloid report) :
    Orderly exempt { desk with pending := desk.pending ++ [report] } := by
  have landing : ∀ order : Order, Desk.landing { desk with pending := desk.pending ++ [report] }
      order = (desk.landing order).next order.cloid report := by
    intro order
    simp only [Desk.landing, Tally.after_append, Tally.after_cons, Tally.after_nil]
  have landed : ∀ c fill, desk.Landed c fill →
      Desk.Landed { desk with pending := desk.pending ++ [report] } c fill :=
    fun _ _ => orderly.landed_put harmless
  refine ⟨orderly.keyed, orderly.counted, fun c order held => ?_, fun c resting there => ?_,
    orderly.answered, orderly.named, fun c fill member => landed c fill
      (orderly.remembered c fill member), fun c view held => ?_, fun c new => ?_⟩
  · have meets := (landing_put harmless held).1
    simp only [Desk.landing, orderly.keyed c order held] at meets
    exact Tally.flows_put (orderly.flows c order held) meets
  · obtain ⟨order, held, backed⟩ := orderly.backed c resting there
    have rests : (desk.venue.book.get c).isSome = true := by rw [there]; rfl
    have keyed := orderly.keyed c order held
    obtain ⟨_, booked, cum, lasts⟩ := landing_put harmless held
    refine ⟨order, held, ?_, ?_, ?_, ?_⟩
    · rw [landing, keyed, booked, ← keyed]
      exact backed.counted
    · rw [landing, keyed]
      exact lasts rests backed.lasts
    · rw [landing, keyed, cum]
      exact backed.short
    · rw [landing, keyed, cum]
      exact backed.within
  · have vouched := orderly.readings c view held
    exact ⟨vouched.known, vouched.answers, vouched.named,
      fun fill member => landed c fill (vouched.fills fill member)⟩
  · obtain ⟨absent, none⟩ := orderly.unknown c new
    refine ⟨fun other member => ?_, none⟩
    rcases List.mem_append.mp member with old | here
    · exact absent other old
    · rw [List.mem_singleton.mp here]
      intro same
      rw [← harmless.reaches, same, new] at known
      cases known

/-- And so are several. -/
theorem puts (orderly : Orderly exempt desk) {cloid : Cloid} {queue : List ExecutionReport}
    (known : (desk.sagas.get cloid).isSome = true)
    (harmless : ∀ report ∈ queue, Harmless desk cloid report) :
    Orderly exempt { desk with pending := desk.pending ++ queue } := by
  induction queue generalizing desk with
  | nil => simpa using orderly
  | cons report rest ih =>
      have here := harmless report List.mem_cons_self
      have tail := ih (orderly.put known here) known fun other member => by
        have was := harmless other (List.mem_cons_of_mem _ member)
        cases other with
        | status other => exact was
        | fill fill => exact orderly.landed_put here was
        | refused c symbol => exact was
      simpa using tail

/-- **A status is remembered and published**: a working one, or the end of an order
that rests no more. -/
theorem announce (orderly : Orderly exempt desk) (report : OrderStatusReport)
    (known : (desk.sagas.get report.cloid).isSome = true)
    (fits : report.status.isWorking = true ∨ desk.venue.book.get report.cloid = none) :
    Orderly exempt { desk with
      venue := desk.venue.remember report, pending := desk.pending ++ [.status report] } := by
  have harmless : Harmless desk report.cloid (.status report) := by
    refine ⟨rfl, fun terminal => fits.resolve_left fun working => ?_⟩
    cases is : report.status <;> simp [is, OrderState.isWorking, OrderState.isTerminal] at *
  have put := orderly.put known harmless
  refine ⟨put.keyed, put.counted, put.flows, fun c resting there => ?_,
    fun c resting there free => ?_, fun c other held => ?_, put.remembered, fun c view held => ?_,
    put.unknown⟩
  · obtain ⟨order, held, backed⟩ := put.backed c resting there
    exact ⟨order, held, backed.counted, backed.lasts, backed.short, backed.within⟩
  · by_cases same : report.cloid = c
    · subst same
      refine ⟨report, Dict.get_set_self .., fits.resolve_right fun gone => ?_⟩
      exact absurd (gone.symm.trans there) nofun
    · obtain ⟨other, was, working⟩ := put.answered c resting there free
      exact ⟨other, (Dict.get_set_ne _ _ same).trans was, working⟩
  · by_cases same : report.cloid = c
    · subst same
      have is : other = report := by
        have := (Dict.get_set_self desk.venue.statuses report.cloid report).symm.trans held
        exact (Option.some.inj this).symm
      rw [is]
    · exact put.named c other ((Dict.get_set_ne _ _ same).symm.trans held)
  · have vouched := put.readings c view held
    exact ⟨vouched.known, vouched.answers, vouched.named, vouched.fills⟩

/-! ## Fills -/

/-- **The next fill is counted and published.**  The order may stay on the book with
room for what it still works. -/
theorem report (orderly : Orderly exempt desk) {order : Order} {report : FillReport} (side : Side)
    (book : RestingBook) (held : desk.sagas.get report.cloid = some order)
    (named : report.tradeId = tradeId report.cloid ((desk.landing order).booked + 1))
    (lasts : (desk.landing order).ended = false)
    (short : (desk.landing order).cum < order.quantity)
    (others : ∀ c, report.cloid ≠ c → book.get c = desk.venue.book.get c)
    (rests : ∀ after, book.get report.cloid = some after →
      (desk.venue.book.get report.cloid).isSome = true ∧
        (desk.landing order).cum + report.quantity < order.quantity ∧
        after.remaining ≤ order.quantity - ((desk.landing order).cum + report.quantity)) :
    Orderly exempt { desk with
      venue := ({ desk.venue with book := book } : PaperExchange).count report
        ((desk.landing order).booked + 1) side
      pending := desk.pending ++ [.fill report] } := by
  generalize is : ({ desk with
    venue := ({ desk.venue with book := book } : PaperExchange).count report
      ((desk.landing order).booked + 1) side
    pending := desk.pending ++ [.fill report] } : Desk) = after
  have sagas : after.sagas = desk.sagas := by rw [← is]
  have pending : after.pending = desk.pending ++ [.fill report] := by rw [← is]
  have statuses : after.venue.statuses = desk.venue.statuses := by rw [← is]; rfl
  have readings : after.readings = desk.readings := by rw [← is]
  have onBook : after.venue.book = book := by rw [← is]; rfl
  have counts : after.venue.fillCounts =
      desk.venue.fillCounts.set report.cloid ((desk.landing order).booked + 1) := by rw [← is]; rfl
  have fills : ∀ c, after.venue.fillsOf c = if report.cloid = c then
      desk.venue.fillsOf c ++ [report] else desk.venue.fillsOf c := by
    intro c
    rw [← is]
    simp only [PaperExchange.count, PaperExchange.fillsOf, Dict.get_set]
    split
    · rename_i same
      rw [← same]
      rfl
    · rfl
  have keyed := orderly.keyed _ _ held
  have landing : ∀ other : Order,
      after.landing other = (desk.landing other).next other.cloid (.fill report) := by
    intro other
    simp only [Desk.landing, pending, Tally.after_append, Tally.after_cons, Tally.after_nil]
  have booked : after.landing order = { desk.landing order with
      booked := (desk.landing order).booked + 1
      cum := (desk.landing order).cum + report.quantity } := by
    rw [landing, keyed]
    exact if_pos ⟨rfl, named⟩
  have unmoved : ∀ c other, desk.sagas.get c = some other → report.cloid ≠ c →
      after.landing other = desk.landing other := by
    intro c other there ne
    rw [landing, orderly.keyed c other there]
    exact Tally.next_ne ne
  have landed : ∀ c fill, desk.Landed c fill → after.Landed c fill := by
    rintro c fill ⟨same, other, there, number, positive, old, trade⟩
    refine ⟨same, other, by rw [sagas]; exact there, number, positive, old.trans ?_, trade⟩
    by_cases here : report.cloid = c
    · subst here
      rw [held] at there
      cases there
      rw [booked]
      exact Nat.le_succ _
    · rw [unmoved c other there here]
  have vouches : ∀ c view, Vouched desk c view → Vouched after c view := by
    intro c view vouched
    refine ⟨by rw [sagas]; exact vouched.known, fun rest => vouched.answers ?_, vouched.named,
      fun fill member => landed c fill (vouched.fills fill member)⟩
    rw [onBook] at rest
    by_cases here : report.cloid = c
    · subst here
      obtain ⟨resting, there⟩ := Option.isSome_iff_exists.mp rest
      exact (rests resting there).1
    · rw [← others c here]
      exact rest
  refine ⟨by rw [sagas]; exact orderly.keyed, by rw [sagas]; exact orderly.counted,
    fun c other there => ?_, fun c resting there => ?_, fun c resting there free => ?_,
    by rw [statuses]; exact orderly.named, fun c fill member => ?_, fun c view there => ?_,
    fun c new => ?_⟩
  · rw [sagas] at there
    have flows := orderly.flows c other there
    rw [pending]
    refine Tally.flows_put flows ?_
    by_cases here : report.cloid = c
    · subst here
      rw [held] at there
      cases there
      simp only [Desk.landing, keyed] at named lasts short
      exact fun _ => .inr ⟨named, lasts, short⟩
    · exact Tally.meets_ne here
  · rw [onBook] at there
    by_cases here : report.cloid = c
    · subst here
      obtain ⟨_, less, within⟩ := rests resting there
      refine ⟨order, by rw [sagas]; exact held, ?_, ?_, ?_, ?_⟩
      · rw [booked, PaperExchange.fillCount, counts, keyed, Dict.get_set_self]
        rfl
      · rw [booked]
        exact lasts
      · rw [booked]
        exact less
      · rw [booked]
        exact within
    · rw [others c here] at there
      obtain ⟨other, saga, backed⟩ := orderly.backed c resting there
      have same := unmoved c other saga here
      refine ⟨other, by rw [sagas]; exact saga, ?_, ?_, ?_, ?_⟩
      · rw [same, PaperExchange.fillCount, counts, Dict.get_set_ne _ _ ?_]
        · exact backed.counted
        · rw [orderly.keyed c other saga]
          exact here
      · rw [same]
        exact backed.lasts
      · rw [same]
        exact backed.short
      · rw [same]
        exact backed.within
  · rw [onBook] at there
    rw [statuses]
    by_cases here : report.cloid = c
    · subst here
      obtain ⟨before, was⟩ := Option.isSome_iff_exists.mp (rests resting there).1
      exact orderly.answered _ before was free
    · rw [others c here] at there
      exact orderly.answered c resting there free
  · rw [fills] at member
    split at member
    · rename_i here
      subst here
      rcases List.mem_append.mp member with old | new
      · exact landed _ fill (orderly.remembered _ fill old)
      · rw [List.mem_singleton.mp new]
        refine ⟨rfl, order, by rw [sagas]; exact held, _, Nat.le_add_left 1 _, ?_, named⟩
        rw [booked]
    · exact landed c fill (orderly.remembered c fill member)
  · rw [readings] at there
    exact vouches c view (orderly.readings c view there)
  · rw [sagas] at new
    have ne : report.cloid ≠ c := by
      rintro rfl
      rw [held] at new
      cases new
    obtain ⟨absent, none⟩ := orderly.unknown c new
    refine ⟨fun other member => ?_, ?_⟩
    · rw [pending] at member
      rcases List.mem_append.mp member with old | here
      · exact absent other old
      · rw [List.mem_singleton.mp here]
        exact ne
    · rw [counts, Dict.get_set_ne _ _ ne]
      exact none

end Orderly

/-! ## Operations -/

namespace Desk

theorem during_announce (desk : Desk) (turn : Turn) (reads : Reads) (order : PlaceOrder)
    (status : OrderState) (reason : Option String) :
    desk.during (turn.announce reads order status reason) =
      { desk.during turn with
        venue := (desk.during turn).venue.remember
          (PaperExchange.statusReport reads order status reason)
        pending := (desk.during turn).pending ++
          [.status (PaperExchange.statusReport reads order status reason)] } := by
  simp [during, Turn.announce]

theorem during_reportFill (desk : Desk) (paper : PaperConfig) (turn : Turn) (reads : Reads)
    (order : PlaceOrder) (fill : Fill) (maker : Bool) :
    desk.during (turn.reportFill paper reads order fill maker) =
      { desk.during turn with
        venue := (desk.during turn).venue.count
          (PaperExchange.fillReport paper turn.venue reads order fill maker)
          (turn.venue.fillCount order.cloid + 1) order.side
        pending := (desk.during turn).pending ++
          [.fill (PaperExchange.fillReport paper turn.venue reads order fill maker)] } := by
  simp [during, Turn.reportFill]

end Desk

namespace Orderly

variable {exempt : Cloid → Prop} {desk : Desk} {paper : PaperConfig} {reads : Reads}
  {turn after : Turn}

theorem announces (orderly : Orderly exempt (desk.during turn)) (order : PlaceOrder)
    (status : OrderState) (reason : Option String)
    (known : (desk.sagas.get order.cloid).isSome = true)
    (fits : status.isWorking = true ∨ turn.venue.book.get order.cloid = none) :
    Orderly exempt (desk.during (turn.announce reads order status reason)) := by
  rw [Desk.during_announce]
  exact orderly.announce (PaperExchange.statusReport reads order status reason) known fits

/-- **One move keeps it.** -/
theorem move (orderly : Orderly exempt (desk.during turn)) (move : Move paper reads turn after) :
    Orderly exempt (desk.during after) := by
  cases move with
  | shrink cloid size => exact orderly.shrink cloid size
  | lifted resting order reason there =>
      obtain ⟨saga, held, _⟩ := orderly.backed _ _ there
      have known : (desk.sagas.get order.cloid).isSome = true :=
        Option.isSome_iff_exists.mpr ⟨saga, held⟩
      have removed : Orderly exempt
          (desk.during (turn.withBook (turn.venue.book.remove order.cloid))) :=
        orderly.remove order.cloid
      refine removed.announces order .cancelled reason known (.inr ?_)
      show (turn.venue.book.remove order.cloid).get order.cloid = none
      rw [RestingBook.get_remove, if_pos rfl]
  | filled resting asked price maker result book there applied =>
      obtain ⟨saga, held, backed⟩ := orderly.backed _ _ there
      have keyed : saga.cloid = resting.order.cloid := orderly.keyed _ _ held
      have counted := backed.counted
      rw [keyed] at counted
      have known : (desk.sagas.get resting.order.cloid).isSome = true :=
        Option.isSome_iff_exists.mpr ⟨saga, held⟩
      obtain ⟨_, is, size, cases_⟩ := RestingBook.applyFill_cases applied
      rw [there] at is
      cases is
      let order := resting.atWorkingSize.toPlaceOrder
      have named : tradeId order.cloid ((turn.withBook book).venue.fillCount order.cloid + 1) =
          tradeId resting.order.cloid (((desk.during turn).landing saga).booked + 1) := by
        rw [← counted]
        rfl
      have kept := @report exempt (desk.during turn) orderly saga
        (PaperExchange.fillReport paper (turn.withBook book).venue reads order
          ⟨result.filled, price⟩ maker)
        order.side book held named backed.lasts backed.short
        (fun c ne => RestingBook.get_applyFill_ne applied ne) (fun resting' rest => by
          replace rest : book.get resting.order.cloid = some resting' := rest
          rcases cases_ with ⟨_, _, _, rfl⟩ | ⟨part, _, _, rfl⟩
          · rw [RestingBook.get_remove, if_pos rfl] at rest
            cases rest
          · rw [RestingBook.get_write, Resting.fill_order, if_pos rfl] at rest
            cases rest
            have within := backed.within
            rw [min_eq_left part.le] at size
            refine ⟨Option.isSome_iff_exists.mpr ⟨resting, there⟩, ?_, ?_⟩
            · show ((desk.during turn).landing saga).cum + result.filled < saga.quantity
              linarith
            · show (resting.fill asked).remaining ≤
                saga.quantity - (((desk.during turn).landing saga).cum + result.filled)
              rw [Resting.fill_remaining, min_eq_left part.le]
              linarith)
      rw [← counted] at kept
      have reported : Orderly exempt (desk.during ((turn.withBook book).reportFill paper reads order
          ⟨result.filled, price⟩ maker)) := by
        rw [Desk.during_reportFill]
        exact kept
      simp only [Turn.takeFill]
      split
      · rename_i shrunk
        refine reported.announces order .cancelled _ known (.inr ?_)
        rcases cases_ with ⟨_, _, _, rfl⟩ | ⟨_, _, whole, _⟩
        · show (turn.venue.book.remove resting.order.cloid).get resting.order.cloid = none
          rw [RestingBook.get_remove, if_pos rfl]
        · rw [whole] at shrunk
          cases shrunk
      · exact reported

/-- **So does every path of moves.** -/
theorem moves (orderly : Orderly exempt (desk.during turn)) (moves : Moves paper reads turn after) :
    Orderly exempt (desk.during after) :=
  Moves.induct (I := fun t => Orderly exempt (desk.during t)) moves orderly
    fun _ _ kept step => kept.move step

/-! ## A placement -/

/-- A new saga opens. -/
theorem opens (orderly : Orderly exempt desk) {order : Order} (counted : Counted order)
    (new : desk.sagas.get order.cloid = none) :
    Orderly exempt { desk with sagas := desk.sagas.set order.cloid order } := by
  have other : ∀ c, (desk.sagas.get c).isSome = true → order.cloid ≠ c := by
    rintro c known rfl
    rw [new] at known
    cases known
  have landed : ∀ c fill, desk.Landed c fill →
      Desk.Landed { desk with sagas := desk.sagas.set order.cloid order } c fill := by
    rintro c fill ⟨same, saga, held, rest⟩
    refine ⟨same, saga, (Dict.get_set_ne _ _ (other c ?_)).trans held, rest⟩
    rw [held]
    rfl
  have either : ∀ c saga, (desk.sagas.set order.cloid order).get c = some saga →
      c = order.cloid ∧ saga = order ∨ desk.sagas.get c = some saga := by
    intro c saga held
    rw [Dict.get_set] at held
    split at held
    · rename_i same
      cases held
      exact .inl ⟨same.symm, rfl⟩
    · exact .inr held
  refine ⟨fun c saga held => ?_, fun c saga held => ?_, fun c saga held => ?_,
    fun c resting there => ?_, orderly.answered, orderly.named,
    fun c fill member => landed c fill (orderly.remembered c fill member), fun c view held => ?_,
    fun c unknown => ?_⟩
  · rcases either c saga held with ⟨rfl, rfl⟩ | was
    · rfl
    · exact orderly.keyed c saga was
  · rcases either c saga held with ⟨_, rfl⟩ | was
    · exact counted
    · exact orderly.counted c saga was
  · rcases either c saga held with ⟨rfl, rfl⟩ | was
    · exact (Tally.after_absent (orderly.unknown _ new).1).2
    · exact orderly.flows c saga was
  · obtain ⟨saga, held, backed⟩ := orderly.backed c resting there
    refine ⟨saga, (Dict.get_set_ne _ _ (other c ?_)).trans held,
      backed.counted, backed.lasts, backed.short, backed.within⟩
    rw [held]
    rfl
  · have vouched := orderly.readings c view held
    refine ⟨?_, vouched.answers, vouched.named,
      fun fill member => landed c fill (vouched.fills fill member)⟩
    exact (congrArg Option.isSome (Dict.get_set_ne _ _ (other c vouched.known))).trans vouched.known
  · refine orderly.unknown c ?_
    simp only [Dict.get_set] at unknown
    split at unknown
    · cases unknown
    · exact unknown

end Orderly

/-- The saga of an order its placement has yet to begin. -/
structure Newborn (desk : Desk) (saga : Order) (order : PlaceOrder) : Prop where
  held : desk.sagas.get order.cloid = some saga
  landing : desk.landing saga = ⟨0, 0, false⟩
  uncounted : desk.venue.fillCount order.cloid = 0
  fresh : desk.venue.book.get order.cloid = none
  unread : ∀ view, (order.cloid, view) ∉ desk.readings
  quantity : order.quantity = saga.quantity
  positive : 0 < saga.quantity

namespace Orderly

variable {exempt : Cloid → Prop} {desk : Desk} {paper : PaperConfig} {reads : Reads}
  {turn after : Turn} {model : FillModel} {order : PlaceOrder} {saga : Order}

/-- **A placement begins**, its own order unanswered yet. -/
theorem begins (orderly : Orderly exempt (desk.during turn)) (own : exempt order.cloid)
    (newborn : Newborn (desk.during turn) saga order)
    (begins : Begins paper model reads turn order after) :
    Orderly exempt (desk.during after) := by
  have keyed : saga.cloid = order.cloid := orderly.keyed _ _ newborn.held
  cases begins with
  | neither => exact orderly
  | rests limit is =>
      generalize turn.venue.workingSize reads order = size
      have at_ : ∀ c, (turn.venue.book.rest limit size).get c =
          if order.cloid = c then some (Resting.put limit size) else turn.venue.book.get c := by
        intro c
        rw [RestingBook.get_rest, ← is]
      refine ⟨orderly.keyed, orderly.counted, orderly.flows, fun c resting there => ?_,
        fun c resting there free => ?_, orderly.named, orderly.remembered, fun c view held => ?_,
        orderly.unknown⟩
      · replace there : (turn.venue.book.rest limit size).get c = some resting := there
        rw [at_] at there
        split at there
        · rename_i same
          subst same
          cases there
          refine ⟨saga, newborn.held, ?_, ?_, ?_, ?_⟩
          · rw [keyed]
            exact newborn.uncounted.trans (congrArg Tally.booked newborn.landing).symm
          · exact congrArg Tally.ended newborn.landing
          · exact (congrArg Tally.cum newborn.landing).trans_lt newborn.positive
          · have cum : ((desk.during turn).landing saga).cum = 0 :=
              congrArg Tally.cum newborn.landing
            have asked : limit.quantity = saga.quantity := by
              rw [← newborn.quantity, ← is]
            show (Resting.put limit size).remaining ≤
              saga.quantity - ((desk.during turn).landing saga).cum
            rw [Resting.put_remaining, cum, sub_zero, ← asked]
            exact min_le_right _ _
        · obtain ⟨other, held, backed⟩ := orderly.backed c resting there
          exact ⟨other, held, backed.counted, backed.lasts, backed.short, backed.within⟩
      · replace there : (turn.venue.book.rest limit size).get c = some resting := there
        have other : order.cloid ≠ c := fun same => free (same ▸ own)
        rw [at_, if_neg other] at there
        exact orderly.answered c resting there free
      · have vouched := orderly.readings c view held
        refine ⟨vouched.known, fun rests => vouched.answers ?_, vouched.named, vouched.fills⟩
        replace rests : ((turn.venue.book.rest limit size).get c).isSome = true := rests
        have other : order.cloid ≠ c := by
          rintro rfl
          exact newborn.unread view held
        rw [at_, if_neg other] at rests
        exact rests
  | market tick kind =>
      simp only [Turn.fillMarket]
      generalize turn.venue.workingSize reads order = size
      generalize model.marketFill _ tick = fill
      let sized : PlaceOrder := { order with quantity := size }
      have uncounted : turn.venue.fillCount order.cloid = 0 := newborn.uncounted
      have booked : ((desk.during turn).landing saga).booked = 0 :=
        congrArg Tally.booked newborn.landing
      have kept := @report _ (desk.during turn) orderly saga
        (PaperExchange.fillReport paper turn.venue reads sized fill false) sized.side
        turn.venue.book newborn.held
        (by
          rw [booked]
          show tradeId order.cloid (turn.venue.fillCount order.cloid + 1) = _
          rw [uncounted]
          rfl)
        (congrArg Tally.ended newborn.landing)
        ((congrArg Tally.cum newborn.landing).trans_lt newborn.positive) (fun _ _ => rfl)
        (fun resting there => by
          have fresh : turn.venue.book.get order.cloid = none := newborn.fresh
          rw [show (PaperExchange.fillReport paper turn.venue reads sized fill false).cloid =
            order.cloid from rfl, fresh] at there
          cases there)
      rw [booked, ← uncounted] at kept
      have reported : Orderly exempt
          (desk.during (turn.reportFill paper reads sized fill false)) := by
        rw [Desk.during_reportFill]
        exact kept
      have known : (desk.sagas.get order.cloid).isSome = true :=
        Option.isSome_iff_exists.mpr ⟨saga, newborn.held⟩
      split
      · exact reported.announces sized .cancelled _ known (.inr newborn.fresh)
      · exact reported

/-- **And ends.** -/
theorem ends (orderly : Orderly exempt (desk.during turn))
    (known : (desk.sagas.get order.cloid).isSome = true) (ends : Ends reads turn order after) :
    Orderly exempt (desk.during after) := by
  cases ends with
  | silent => exact orderly
  | live => exact orderly.announces order .live none known (.inl rfl)
  | refused status reason terminal gone =>
      exact orderly.announces order status reason known (.inr gone)
  | dropped =>
      have removed : Orderly exempt
          (desk.during (turn.withBook (turn.venue.book.remove order.cloid))) :=
        orderly.remove order.cloid
      refine removed.announces order .cancelled none known (.inr ?_)
      show (turn.venue.book.remove order.cloid).get order.cloid = none
      rw [RestingBook.get_remove, if_pos rfl]

/-- An order that comes to a `LIVE`, or off the book, needs no exemption. -/
theorem settles (orderly : Orderly (· = order.cloid) (desk.during after))
    (settled : Settled after order.cloid) : Orderly (fun _ => False) (desk.during after) := by
  refine ⟨orderly.keyed, orderly.counted, orderly.flows, orderly.backed,
    fun c resting there _ => ?_, orderly.named, orderly.remembered, orderly.readings,
    orderly.unknown⟩
  by_cases own : c = order.cloid
  · subst own
    rcases settled with gone | ⟨report, held, isLive⟩
    · exact absurd (gone.symm.trans there) nofun
    · exact ⟨report, held, by rw [isLive]; rfl⟩
  · exact orderly.answered c resting there own

end Orderly

/-- A saga as it is opened counts no fill. -/
theorem opened_counted (config : DeskConfig) (signal : PlaceSignal) {quantity : Decimal}
    (positive : 0 < quantity) (price : Option Decimal) (basis : Option Basis) (nowNs : Nanos) :
    Counted (Desk.opened config signal quantity price basis nowNs) ∧
      tallyOf (Desk.opened config signal quantity price basis nowNs) = ⟨0, 0, false⟩ := by
  generalize is : Desk.opened config signal quantity price basis nowNs = order
  have ids : order.appliedEventIds = {EventId.state order.cloid .submitted} := by
    rw [← is]
    rfl
  have state : order.state = .submitted := by rw [← is]; rfl
  have cum : order.cumQty = 0 := by rw [← is]; rfl
  have size : order.quantity = quantity := by rw [← is]; rfl
  have none : order.fillCount = 0 := by
    simp [Order.fillCount, ids, EventId.isFillOf]
  refine ⟨⟨fun trade => ?_, fun _ => ?_, fun filled => ?_⟩, ?_⟩
  · rw [ids, none]
    simp only [Finset.mem_singleton, reduceCtorEq, false_iff, not_exists, not_and]
    intro number positive upTo
    omega
  · rw [cum, size]
    exact positive
  · rw [state] at filled
    cases filled
  · simp [tallyOf, none, cum, Order.isTerminal, state, OrderState.isTerminal]

/-! ## The saga's half -/

/-- A saga moves, and the venue with it on its own cloid only. -/
structure Rebooks (desk after : Desk) (c : Cloid) (order next : Order) : Prop where
  held : desk.sagas.get c = some order
  sagas : after.sagas = desk.sagas.set c next
  pending : ∀ report ∈ after.pending, report ∈ desk.pending
  readings : after.readings = desk.readings
  statuses : after.venue.statuses = desk.venue.statuses
  keyed : next.cloid = c
  counted : Counted next
  flows : Tally.Flows c next.quantity (tallyOf next) after.pending
  grows : (desk.landing order).booked ≤ (after.landing next).booked
  backed : ∀ resting, after.venue.book.get c = some resting →
    (desk.venue.book.get c).isSome = true ∧ Backed after resting next
  fills : ∀ fill ∈ after.venue.fillsOf c, after.Landed c fill ∨ fill ∈ desk.venue.fillsOf c
  others : ∀ other, c ≠ other → after.venue.book.get other = desk.venue.book.get other ∧
    after.venue.fillCounts.get other = desk.venue.fillCounts.get other ∧
    after.venue.fillsOf other = desk.venue.fillsOf other
  flowing : ∀ other saga, c ≠ other → desk.sagas.get other = some saga →
    Tally.Flows other saga.quantity (tallyOf saga) after.pending ∧
      after.landing saga = desk.landing saga

theorem Rebooks.landed {desk after : Desk} {c other : Cloid} {order next : Order}
    {fill : FillReport} (rebooks : Rebooks desk after c order next)
    (landed : desk.Landed other fill) : after.Landed other fill := by
  obtain ⟨same, saga, held, number, positive, old, is⟩ := landed
  by_cases own : c = other
  · subst own
    rw [rebooks.held] at held
    cases held
    exact ⟨same, next, by rw [rebooks.sagas, Dict.get_set_self], number, positive,
      old.trans rebooks.grows, is⟩
  · refine ⟨same, saga, by rw [rebooks.sagas, Dict.get_set_ne _ _ own, held], number, positive, ?_,
      is⟩
    rw [(rebooks.flowing other saga own held).2]
    exact old

namespace Orderly

variable {exempt : Cloid → Prop} {desk after : Desk} {c : Cloid} {order next : Order}

/-- **A saga's move keeps it.** -/
theorem rebooks (orderly : Orderly exempt desk) (rebooks : Rebooks desk after c order next) :
    Orderly exempt after := by
  have either : ∀ other saga, after.sagas.get other = some saga →
      c = other ∧ saga = next ∨ c ≠ other ∧ desk.sagas.get other = some saga := by
    intro other saga held
    rw [rebooks.sagas, Dict.get_set] at held
    split at held
    · rename_i same
      cases held
      exact .inl ⟨same, rfl⟩
    · rename_i ne
      exact .inr ⟨ne, held⟩
  have rested : ∀ other, (after.venue.book.get other).isSome = true →
      (desk.venue.book.get other).isSome = true := by
    intro other rests
    by_cases own : c = other
    · subst own
      obtain ⟨resting, there⟩ := Option.isSome_iff_exists.mp rests
      exact (rebooks.backed resting there).1
    · rw [← (rebooks.others other own).1]
      exact rests
  refine ⟨fun other saga held => ?_, fun other saga held => ?_, fun other saga held => ?_,
    fun other resting there => ?_, fun other resting there free => ?_,
    by rw [rebooks.statuses]; exact orderly.named, fun other fill member => ?_,
    fun other view held => ?_, fun other new => ?_⟩
  · rcases either other saga held with ⟨rfl, rfl⟩ | ⟨_, was⟩
    · exact rebooks.keyed
    · exact orderly.keyed other saga was
  · rcases either other saga held with ⟨_, rfl⟩ | ⟨_, was⟩
    · exact rebooks.counted
    · exact orderly.counted other saga was
  · rcases either other saga held with ⟨rfl, rfl⟩ | ⟨ne, was⟩
    · exact rebooks.flows
    · exact (rebooks.flowing other saga ne was).1
  · by_cases own : c = other
    · subst own
      exact ⟨next, by rw [rebooks.sagas, Dict.get_set_self], (rebooks.backed resting there).2⟩
    · obtain ⟨book, counts, _⟩ := rebooks.others other own
      rw [book] at there
      obtain ⟨saga, held, backed⟩ := orderly.backed other resting there
      have landing := (rebooks.flowing other saga own held).2
      refine ⟨saga, by rw [rebooks.sagas, Dict.get_set_ne _ _ own, held], ?_, ?_, ?_, ?_⟩
      · rw [landing, ← backed.counted, orderly.keyed other saga held, PaperExchange.fillCount,
          counts]
        rfl
      · rw [landing]
        exact backed.lasts
      · rw [landing]
        exact backed.short
      · rw [landing]
        exact backed.within
  · have rests := rested other (Option.isSome_iff_exists.mpr ⟨resting, there⟩)
    obtain ⟨before, was⟩ := Option.isSome_iff_exists.mp rests
    rw [rebooks.statuses]
    exact orderly.answered other before was free
  · by_cases own : c = other
    · subst own
      exact (rebooks.fills fill member).elim id fun old =>
        rebooks.landed (orderly.remembered c fill old)
    · rw [(rebooks.others other own).2.2] at member
      exact rebooks.landed (orderly.remembered other fill member)
  · rw [rebooks.readings] at held
    have vouched := orderly.readings other view held
    refine ⟨?_, fun rests => vouched.answers (rested other rests), vouched.named,
      fun fill member => rebooks.landed (vouched.fills fill member)⟩
    rw [rebooks.sagas, Dict.get_set]
    split
    · rfl
    · exact vouched.known
  · rw [rebooks.sagas, Dict.get_set] at new
    split at new
    · cases new
    · rename_i own
      obtain ⟨absent, none⟩ := orderly.unknown other new
      exact ⟨fun report member => absent report (rebooks.pending report member),
        by rw [(rebooks.others other own).2.1]; exact none⟩

end Orderly

/-! ## The venue hears a fill -/

/-- The venue books a fill it has not counted on an order that rests, and no other. -/
theorem onFillReport_cases {venue heard : PaperExchange} {report : FillReport} {number : ℕ}
    (named : report.tradeId = tradeId report.cloid number)
    (hears : venue.onFillReport report = .ok heard) :
    (number ≤ venue.fillCount report.cloid ∨ venue.book.get report.cloid = none) ∧ heard = venue ∨
    venue.fillCount report.cloid < number ∧ ∃ resting result book side,
      venue.book.get report.cloid = some resting ∧
      venue.book.applyFill report.cloid report.quantity = .ok (result, book) ∧
      heard = ({ venue with book := book } : PaperExchange).count report number side := by
  simp only [PaperExchange.onFillReport, fillNumber_tradeId named] at hears
  split at hears
  · rename_i old
    cases hears
    exact .inl ⟨.inl old, rfl⟩
  · rename_i fresh
    cases working : venue.book.working report.cloid with
    | none =>
        rw [working] at hears
        cases hears
        exact .inl ⟨.inr (Option.map_eq_none_iff.mp working), rfl⟩
    | some order =>
        obtain ⟨_, resting, there, _⟩ := RestingBook.working_eq_some working
        obtain ⟨result, book, applied⟩ := RestingBook.applyFill_ok report.quantity there
        simp only [working, applied, Except.map, Except.ok.injEq] at hears
        exact .inr ⟨not_le.mp fresh, resting, result, book, order.side, there, applied, hears.symm⟩

theorem handle_fill {desk after : Desk} {report : FillReport} {nowNs : Nanos} {order : Order}
    (held : desk.sagas.get report.cloid = some order)
    (handled : desk.handle (.fill report) nowNs = .ok after) :
    ∃ heard next, desk.venue.onFillReport report = .ok heard ∧
      absorb order (.fill report) nowNs = .ok next ∧
      after = { desk with venue := heard }.book report.cloid order next := by
  simp only [Desk.handle] at handled
  cases hears : desk.venue.onFillReport report with
  | error violation => rw [hears] at handled; cases handled
  | ok heard =>
      simp only [hears, reaches, held] at handled
      cases absorbed : absorb order (.fill report) nowNs with
      | error violation => rw [absorbed] at handled; cases handled
      | ok next =>
          rw [absorbed] at handled
          cases handled
          exact ⟨heard, next, rfl, rfl, rfl⟩

/-- A fill of no saga is nobody's. -/
theorem Orderly.handle_stranger {exempt : Cloid → Prop} {desk after : Desk} {report : FillReport}
    {nowNs : Nanos} (orderly : Orderly exempt desk) (new : desk.sagas.get report.cloid = none)
    (handled : desk.handle (.fill report) nowNs = .ok after) : after = desk := by
  have off := orderly.fresh new
  have working : desk.venue.book.working report.cloid = none := by
    rw [RestingBook.working, off]
    rfl
  have hears : desk.venue.onFillReport report = .ok desk.venue := by
    simp only [PaperExchange.onFillReport, working]
    split
    · rfl
    · split <;> rfl
  simp only [Desk.handle, hears, reaches, new] at handled
  cases handled
  rfl

namespace Orderly

variable {exempt : Cloid → Prop} {desk after : Desk} {order : Order}

/-! ## The report at the front -/

/-- What a report at the front of the bus does, once the venue has heard it to no
effect. -/
theorem fronts (orderly : Orderly exempt desk) {report : ExecutionReport}
    {rest : List ExecutionReport} {next : Order} {nowNs : Nanos}
    (front : desk.pending = report :: rest)
    (held : desk.sagas.get (reaches report) = some order)
    (absorbed : absorb order report nowNs = .ok next) :
    Orderly exempt (({ desk with pending := rest } : Desk).book (reaches report) order next) := by
  have keyed := orderly.keyed _ _ held
  have flows := orderly.flows _ _ held
  rw [front] at flows
  have named := Tally.Meets.named keyed.symm (by rw [keyed]; exact flows.1)
  obtain ⟨counted, under⟩ := absorb_tally (orderly.counted _ _ held) keyed.symm named absorbed
  rw [keyed] at under
  obtain ⟨⟨nextKeyed, _, _, quantity, _⟩, _⟩ := absorb_terms absorbed
  have landing : (Desk.landing { desk with pending := rest } next).Under (desk.landing order) := by
    simp only [Desk.landing, front, nextKeyed, keyed]
    exact under.after rest
  refine orderly.rebooks ⟨held, rfl, fun other member => ?_, rfl, rfl, nextKeyed.trans keyed,
    counted, ?_, landing.booked.ge, fun resting there => ?_, fun fill member => .inr member,
    fun other _ => ⟨rfl, rfl, rfl⟩, fun other saga ne there => ?_⟩
  · rw [front]
    exact List.mem_cons_of_mem _ member
  · rw [quantity]
    exact under.flows flows.2
  · obtain ⟨saga, there', backed⟩ := orderly.backed _ resting there
    rw [held] at there'
    cases there'
    refine ⟨Option.isSome_iff_exists.mpr ⟨resting, there⟩, ?_, landing.ended backed.lasts, ?_, ?_⟩
    · rw [nextKeyed]
      exact backed.counted.trans landing.booked.symm
    · rw [quantity]
      exact landing.cum.trans_lt backed.short
    · have cum : (Desk.landing { desk with pending := rest } next).cum ≤ (desk.landing order).cum :=
        landing.cum
      have within := backed.within
      show resting.remaining ≤ next.quantity - (Desk.landing { desk with pending := rest } next).cum
      rw [quantity]
      linarith
  · have flowing := orderly.flows other saga there
    rw [front] at flowing
    have stays := @Tally.next_ne other (tallyOf saga) report ne
    refine ⟨?_, ?_⟩
    · have tail := flowing.2
      rw [stays] at tail
      exact tail
    · show (tallyOf saga).after saga.cloid rest = (tallyOf saga).after saga.cloid desk.pending
      rw [front, orderly.keyed other saga there, Tally.after_cons, stays]

/-- **Handling the report at the front keeps it.** -/
theorem dispatches (orderly : Orderly exempt desk) {report : ExecutionReport}
    {rest : List ExecutionReport} {nowNs : Nanos} (front : desk.pending = report :: rest)
    (handled : Desk.handle { desk with pending := rest } report nowNs = .ok after) :
    Orderly exempt after := by
  cases held : desk.sagas.get (reaches report) with
  | none =>
      have absent := (orderly.unknown _ held).1 report (by rw [front]; exact List.mem_cons_self)
      exact absurd rfl absent
  | some order =>
      cases report with
      | status report =>
          simp only [Desk.handle, held] at handled
          cases absorbed : absorb order (.status report) nowNs with
          | error violation => rw [absorbed] at handled; cases handled
          | ok next =>
              rw [absorbed] at handled
              cases handled
              exact orderly.fronts front held absorbed
      | refused c symbol =>
          simp only [Desk.handle, held] at handled
          cases handled
          exact @fronts exempt desk order orderly (.refused c symbol) rest order nowNs front held
            rfl
      | fill fill =>
          obtain ⟨heard, next, hears, absorbed, rfl⟩ :=
            @handle_fill { desk with pending := rest } after fill nowNs order held handled
          have flows := orderly.flows _ _ held
          rw [front] at flows
          have keyed : order.cloid = fill.cloid := orderly.keyed _ _ held
          -- the venue has counted it, or the order rests no more
          have unmoved : heard = desk.venue := by
            obtain ⟨number, named, old⟩ : ∃ number, fill.tradeId = tradeId fill.cloid number ∧
                number ≤ (desk.landing order).booked := by
              have grows := @Tally.booked_le_after fill.cloid
                ((tallyOf order).next fill.cloid (.fill fill)) rest
              have landing : desk.landing order =
                  ((tallyOf order).next fill.cloid (.fill fill)).after fill.cloid rest := by
                rw [Desk.landing, front, keyed]
                rfl
              rcases flows.1 rfl with ⟨number, _, old, named⟩ | ⟨named, _, _⟩
              · have least := @Tally.booked_le_after fill.cloid (tallyOf order)
                  [.fill fill]
                refine ⟨number, named, ?_⟩
                rw [landing]
                exact (old.trans least).trans grows
              · refine ⟨_, named, ?_⟩
                have booked : ((tallyOf order).next fill.cloid (.fill fill)).booked =
                    (tallyOf order).booked + 1 := congrArg Tally.booked (if_pos ⟨rfl, named⟩)
                rw [landing]
                omega
            rcases onFillReport_cases named hears with
              ⟨_, same⟩ | ⟨fresh, resting, _, _, _, there, _, _⟩
            · exact same
            · obtain ⟨saga, there', backed⟩ := orderly.backed _ resting there
              replace held : desk.sagas.get fill.cloid = some order := held
              rw [held] at there'
              cases there'
              have counted := backed.counted
              rw [keyed] at counted
              replace fresh : desk.venue.fillCount fill.cloid < number := fresh
              omega
          subst unmoved
          exact orderly.fronts front held absorbed

end Orderly

/-! ## A fill again -/

/-- A fill the bus may deliver again: one its saga has booked, or the next, and no
larger than what the venue has filled under its number by now. -/
def Redelivers (desk : Desk) (report : FillReport) : Prop :=
  ∀ order, desk.sagas.get report.cloid = some order →
    ∃ number, 1 ≤ number ∧ report.tradeId = tradeId report.cloid number ∧
      (number ≤ order.fillCount ∨ number = order.fillCount + 1 ∧
        ∀ fill, .fill fill ∈ desk.pending → fill.cloid = report.cloid →
          fill.tradeId = report.tradeId → report.quantity ≤ fill.quantity)

namespace Orderly

variable {exempt : Cloid → Prop} {desk after : Desk} {order : Order}

/-- A saga moves to one its landing takes no worse, and the venue does nothing. -/
theorem rebooks_under (orderly : Orderly exempt desk) {next : Order} {c : Cloid}
    (held : desk.sagas.get c = some order) (nextKeyed : next.cloid = c)
    (quantity : next.quantity = order.quantity) (counted : Counted next)
    (flows : Tally.Flows c next.quantity (tallyOf next) desk.pending)
    (landing : (desk.landing next).Under (desk.landing order)) :
    Orderly exempt (desk.book c order next) := by
  refine orderly.rebooks ⟨held, rfl, fun _ member => member, rfl, rfl, nextKeyed, counted, flows,
    landing.booked.ge, fun resting there => ?_, fun fill member => .inr member,
    fun other _ => ⟨rfl, rfl, rfl⟩, fun other saga _ there => ⟨orderly.flows other saga there, rfl⟩⟩
  obtain ⟨saga, there', backed⟩ := orderly.backed _ resting there
  rw [held] at there'
  cases there'
  have keyed := orderly.keyed _ _ held
  refine ⟨Option.isSome_iff_exists.mpr ⟨resting, there⟩, ?_, landing.ended backed.lasts, ?_, ?_⟩
  · rw [nextKeyed, ← keyed]
    exact backed.counted.trans landing.booked.symm
  · rw [quantity]
    exact landing.cum.trans_lt backed.short
  · have cum : (desk.landing next).cum ≤ (desk.landing order).cum := landing.cum
    have within := backed.within
    show resting.remaining ≤ next.quantity - (desk.landing next).cum
    rw [quantity]
    linarith

/-- **A fill delivered again keeps it.** -/
theorem redelivers (orderly : Orderly exempt desk) {report : FillReport} {nowNs : Nanos}
    (redelivers : Redelivers desk report)
    (handled : desk.handle (.fill report) nowNs = .ok after) : Orderly exempt after := by
  cases held : desk.sagas.get report.cloid with
  | none =>
      rw [orderly.handle_stranger held handled]
      exact orderly
  | some order =>
      obtain ⟨heard, next, hears, absorbed, rfl⟩ := handle_fill held handled
      obtain ⟨number, positive, named, either⟩ := redelivers order held
      have keyed : order.cloid = report.cloid := orderly.keyed _ _ held
      have counted := orderly.counted _ _ held
      have flows := orderly.flows _ _ held
      obtain ⟨⟨nextKeyed, _, _, quantity, _⟩, _⟩ := absorb_terms absorbed
      have upTo : number ≤ order.fillCount + 1 := by omega
      obtain ⟨nextCounted, under⟩ := @absorb_tally order next (.fill report) nowNs counted
        keyed.symm ⟨number, positive, upTo, by rw [keyed]; exact named⟩ absorbed
      rw [keyed] at under nextKeyed
      have landing : desk.landing order = (tallyOf order).after report.cloid desk.pending := by
        rw [Desk.landing, keyed]
      have nextLanding : desk.landing next = (tallyOf next).after report.cloid desk.pending := by
        rw [Desk.landing, nextKeyed]
      have grows := @Tally.booked_le_after report.cloid (tallyOf order) desk.pending
      rw [← landing] at grows
      have heardOld : ∀ resting, desk.venue.book.get report.cloid = some resting →
          desk.venue.fillCount report.cloid = (desk.landing order).booked := by
        intro resting there
        obtain ⟨saga, there', backed⟩ := orderly.backed _ resting there
        rw [held] at there'
        cases there'
        have counts := backed.counted
        rw [keyed] at counts
        exact counts
      -- the venue counted it already, or the order rests no more
      have unmoved : number ≤ (desk.landing order).booked → heard = desk.venue := by
        intro old
        rcases onFillReport_cases named hears with
          ⟨_, same⟩ | ⟨fresh, resting, _, _, _, there, _, _⟩
        · exact same
        · rw [heardOld resting there] at fresh
          omega
      rcases either with old | ⟨isNext, least⟩
      · have stays : (tallyOf order).next report.cloid (.fill report) = tallyOf order := by
          refine if_neg fun fresh => ?_
          have numbers := tradeId_inj (named.symm.trans fresh.2)
          simp only [tallyOf] at numbers
          omega
        rw [stays] at under
        rw [unmoved (old.trans grows)]
        refine orderly.rebooks_under held nextKeyed quantity nextCounted ?_ ?_
        · rw [quantity]
          exact under.flows flows
        · rw [landing, nextLanding]
          exact under.after _
      · subst isNext
        have ahead : (tallyOf order).next report.cloid (.fill report) =
            (tallyOf order).ahead report.quantity := if_pos ⟨rfl, named⟩
        rw [ahead] at under
        obtain ⟨flowing, landings⟩ := @Tally.flows_ahead report.cloid order.quantity
          (tallyOf order) desk.pending report.quantity flows fun fill member same is =>
            least fill member same (is.trans named.symm)
        have nextFlows : Tally.Flows report.cloid next.quantity (tallyOf next) desk.pending := by
          rw [quantity]
          exact under.flows flowing
        rcases landings with ⟨none, landsAhead⟩ | ⟨some_, landsUnder⟩
        · -- no fill of this number on the bus
          rw [← landing] at none landsAhead
          have lands := @Tally.Under.after report.cloid _ _ under desk.pending
          rw [← nextLanding, landsAhead] at lands
          have booked : (desk.landing next).booked = (desk.landing order).booked + 1 := lands.booked
          have number' : order.fillCount + 1 = (desk.landing order).booked + 1 :=
            congrArg (· + 1) none.symm
          rcases onFillReport_cases named hears with
            ⟨old, rfl⟩ | ⟨fresh, resting, result, book, side, there, applied, rfl⟩
          · have off : desk.venue.book.get report.cloid = Option.none := by
              rcases old with counted | off
              · cases there : desk.venue.book.get report.cloid with
                | none => rfl
                | some resting =>
                    rw [heardOld resting there] at counted
                    omega
              · exact off
            refine orderly.rebooks ⟨held, rfl, fun _ member => member, rfl, rfl, nextKeyed,
              nextCounted, nextFlows, ?_, fun resting there => ?_, fun fill member => .inr member,
              fun other _ => ⟨rfl, rfl, rfl⟩,
              fun other saga _ there => ⟨orderly.flows other saga there, rfl⟩⟩
            · show (desk.landing order).booked ≤ (desk.landing next).booked
              omega
            · exact absurd (off.symm.trans there) (by simp)
          · obtain ⟨saga, there', backed⟩ := orderly.backed _ resting there
            rw [held] at there'
            cases there'
            have within := backed.within
            obtain ⟨_, is, _, cases_⟩ := RestingBook.applyFill_cases applied
            rw [there] at is
            cases is
            refine orderly.rebooks ⟨held, rfl, fun _ member => member, rfl, rfl, nextKeyed,
              nextCounted, nextFlows, ?_, fun left stays => ?_, fun fill member => ?_,
              fun other ne => ⟨RestingBook.get_applyFill_ne applied ne, ?_, ?_⟩,
              fun other saga _ there => ⟨orderly.flows other saga there, rfl⟩⟩
            · show (desk.landing order).booked ≤ (desk.landing next).booked
              omega
            · replace stays : book.get report.cloid = some left := stays
              refine ⟨Option.isSome_iff_exists.mpr ⟨resting, there⟩, ?_⟩
              rcases cases_ with ⟨_, _, _, rfl⟩ | ⟨part, _, _, rfl⟩
              · rw [RestingBook.get_remove, if_pos rfl] at stays
                cases stays
              · rw [RestingBook.get_write, Resting.fill_order,
                  desk.venue.book.keyed _ _ there, if_pos rfl] at stays
                cases stays
                have cum : (desk.landing next).cum ≤ (desk.landing order).cum + report.quantity :=
                  lands.cum
                refine ⟨?_, lands.ended backed.lasts, ?_, ?_⟩
                · rw [nextKeyed]
                  have set := Dict.get_set_self desk.venue.fillCounts report.cloid
                    (order.fillCount + 1)
                  refine (congrArg (fun count => Option.getD count 0) set).trans ?_
                  exact number'.trans booked.symm
                · show (desk.landing next).cum < next.quantity
                  rw [quantity]
                  linarith
                · show (resting.fill report.quantity).remaining ≤
                    next.quantity - (desk.landing next).cum
                  rw [Resting.fill_remaining, min_eq_left part.le, quantity]
                  linarith
            · simp only [Desk.book, PaperExchange.count, PaperExchange.fillsOf, Dict.get_set_self,
                Option.getD_some, List.mem_append, List.mem_singleton] at member
              rcases member with old | rfl
              · exact .inr old
              · refine .inl ⟨rfl, next, Dict.get_set_self .., _, positive, ?_, named⟩
                show order.fillCount + 1 ≤ (desk.landing next).booked
                omega
            · exact Dict.get_set_ne _ _ ne
            · simp only [Desk.book, PaperExchange.count, PaperExchange.fillsOf,
                Dict.get_set_ne _ _ ne]
        · -- the venue has made it again by now
          rw [← landing] at some_ landsUnder
          rw [unmoved some_]
          refine orderly.rebooks_under held nextKeyed quantity nextCounted nextFlows ?_
          rw [nextLanding]
          exact (under.after _).trans landsUnder

end Orderly

end Tickwright.Paper
