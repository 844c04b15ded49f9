/-
# Paper.Ghosts -- no order that rests is taken for a ghost

A pass takes an order the venue has no record of for a ghost, and ends its saga.
`resting_answered` says the venue answers for every order on its book with `LIVE`
or `PARTIALLY_FILLED`, that no pass ends the saga of an order that rests, and that
no fill the bus holds meets an ended saga.

It holds of every run whose placements all announce what they leave resting
(`Answerable`).  A GTC LIMIT that arrives partly filled is left resting in
silence: its fill is taken to have moved the saga, but `fetch_order` answers from
the statuses alone.  `Sample.half_filled_unanswered` is such a run.
-/
import Tickwright.Paper.Orderly

namespace Tickwright.Paper

open Tickwright.Domain Tickwright.Theory Tickwright.Engine

set_option autoImplicit false

variable {config : DeskConfig}

/-! ## A pass -/

/-- **What a pass publishes from a reading is harmless.** -/
theorem concluded_harmless {desk : Desk} {cloid : Cloid} {view : VenueOrderView} {order : Order}
    {conclusion : Conclusion} {nowNs : Nanos} (vouched : Vouched desk cloid view)
    (keyed : order.cloid = cloid) :
    ∀ report ∈ concluded config.reconcile order view nowNs conclusion,
      Harmless desk cloid report := by
  have unanswered : view.status = none → desk.venue.book.get cloid = none := by
    intro none
    cases there : desk.venue.book.get cloid with
    | none => rfl
    | some resting =>
        obtain ⟨report, some_, _⟩ := vouched.answers (by rw [there]; rfl)
        rw [none] at some_
        cases some_
  have opens : ∀ opening : Reconciler.Opening,
      (∀ report, opening = .failed report →
        view.status = none ∧ report = Reconciler.failedVerdict order nowNs) →
      (∀ bridge, opening = .replay bridge →
        bridge = if order.state = .pending then some (Reconciler.submittedBridge order nowNs)
          else none) →
      ∀ report ∈ Opening.reports opening, Harmless desk cloid report := by
    intro opening failed replay report member
    cases opening with
    | failed verdict =>
        obtain ⟨none, is⟩ := failed verdict rfl
        rw [List.mem_singleton.mp member, is]
        exact ⟨keyed, fun _ => unanswered none⟩
    | replay bridge =>
        have is := replay bridge rfl
        simp only [Opening.reports, Option.mem_toList, Option.map_eq_some_iff] at member
        obtain ⟨status, there, rfl⟩ := member
        rw [is] at there
        split at there
        · cases there
          exact ⟨keyed, nofun⟩
        · cases there
  intro report member
  cases conclusion with
  | opens =>
      exact opens _ (fun report is =>
        have failed := Reconciler.opening_failed is
        ⟨failed.1, failed.2.2.2⟩) (fun bridge is => Reconciler.opening_replay is) report member
  | inflight absence =>
      simp only [concluded] at member
      cases opened : Reconciler.inflightOpening config.reconcile order view absence nowNs with
      | mk opening left =>
          rw [opened] at member
          cases opening with
          | none => cases member
          | some opening =>
              refine opens opening (fun report is => ?_) (fun bridge is => ?_) report member
              · subst is
                have failed := Reconciler.inflightOpening_failed opened
                exact ⟨failed.1, failed.2.2⟩
              · subst is
                exact Reconciler.inflightOpening_replay opened
  | replays fill =>
      simp only [concluded] at member
      split at member
      · rename_i there
        rw [List.mem_singleton.mp member]
        exact vouched.fills fill there
      · cases member
  | closes lastEventNs absence =>
      simp only [concluded, Option.mem_toList, Option.map_eq_some_iff] at member
      obtain ⟨status, there, rfl⟩ := member
      cases closed : Reconciler.closing config.reconcile order view lastEventNs absence nowNs with
      | mk closing left =>
          rw [closed] at there
          replace there : closing = some status := there
          subst there
          rcases Reconciler.closing_some closed with ⟨none, _, rfl⟩ | ⟨record, some_, _, rfl⟩
          · exact ⟨keyed, fun _ => unanswered none⟩
          · refine ⟨vouched.named record some_, fun terminal => ?_⟩
            cases rests : desk.venue.book.get cloid with
            | none => rfl
            | some resting =>
                obtain ⟨report, same, working⟩ := vouched.answers (by rw [rests]; rfl)
                rw [some_] at same
                cases same
                replace terminal : record.status.isTerminal = true := terminal
                cases is : record.status <;>
                  simp [is, OrderState.isWorking, OrderState.isTerminal] at *

/-- **A reading vouches for its cloid.** -/
theorem Orderly.vouches {desk : Desk} (orderly : Orderly (fun _ => False) desk) {cloid : Cloid}
    (known : (desk.sagas.get cloid).isSome = true) :
    Vouched desk cloid (desk.venue.fetchOrder cloid) := by
  refine ⟨known, fun rests => ?_, fun report held => orderly.named cloid report held,
    orderly.remembered cloid⟩
  obtain ⟨resting, there⟩ := Option.isSome_iff_exists.mp rests
  exact orderly.answered cloid resting there id

/-! ## A restart -/

/-- What a book holds as it is rebuilt from the rows. -/
structure Rebuilt (sagas : Dict Cloid Order) (venue : PaperExchange) : Prop where
  rests : ∀ c resting, venue.book.get c = some resting → ∃ saga, sagas.get c = some saga ∧
    saga.state.isWorking = true ∧ venue.fillCount c = saga.fillCount ∧
    resting.remaining ≤ saga.quantity - saga.cumQty ∧
    ∃ report, venue.statuses.get c = some report ∧ report.status = saga.state
  named : ∀ c report, venue.statuses.get c = some report → report.cloid = c
  fills : ∀ c, venue.fillsOf c = []
  counts : ∀ c, sagas.get c = none → venue.fillCounts.get c = none

theorem rebuild_rebuilt {sagas : Dict Cloid Order} {reads : Reads} {venue after : PaperExchange}
    {saga : Order} (rebuilt : Rebuilt sagas venue) (held : sagas.get saga.cloid = some saga)
    (working : saga.state.isWorking = true)
    (rebuilds : PaperExchange.rebuild reads venue saga = .ok after) : Rebuilt sagas after := by
  simp only [PaperExchange.rebuild] at rebuilds
  cases built : placeOrderOf saga with
  | error violation => rw [built] at rebuilds; cases rebuilds
  | ok request =>
      obtain ⟨cloid, _, _, quantity, _⟩ := placeOrderOf_terms built
      simp only [built] at rebuilds
      cases kind : request.asLimit with
      | none => rw [kind] at rebuilds; cases rebuilds
      | some order =>
          simp only [kind, Except.ok.injEq] at rebuilds
          have is := PlaceOrder.asLimit_eq kind
          have asked : order.quantity = saga.quantity - saga.cumQty := by rw [← quantity, ← is]
          have named : order.cloid = saga.cloid := by rw [← cloid, ← is]
          generalize venue.workingSize reads request = size at rebuilds
          subst rebuilds
          refine ⟨fun c resting there => ?_, fun c report there => ?_, rebuilt.fills,
            fun c new => ?_⟩
          · replace there : (venue.book.rest order size).get c = some resting := there
            rw [RestingBook.get_rest, named] at there
            split at there
            · rename_i same
              subst same
              cases there
              refine ⟨saga, held, working, ?_, ?_, PaperExchange.statusReport reads request
                saga.state none, ?_, rfl⟩
              · exact congrArg (fun count => Option.getD count 0) (Dict.get_set_self ..)
              · rw [Resting.put_remaining, ← asked]
                exact min_le_right _ _
              · show (venue.statuses.set request.cloid _).get saga.cloid = _
                rw [cloid, Dict.get_set_self]
            · rename_i ne
              obtain ⟨other, there, working, count, within, report, answered, status⟩ :=
                rebuilt.rests c resting there
              refine ⟨other, there, working, ?_, within, report, ?_, status⟩
              · exact (congrArg (fun count => Option.getD count 0)
                  (Dict.get_set_ne _ _ ne)).trans count
              · show (venue.statuses.set request.cloid _).get c = _
                rw [cloid, Dict.get_set_ne _ _ ne, answered]
          · replace there : (venue.statuses.set request.cloid _).get c = some report := there
            rw [Dict.get_set] at there
            split at there
            · rename_i same
              cases there
              exact same
            · exact rebuilt.named c report there
          · have ne : saga.cloid ≠ c := by
              rintro rfl
              rw [held] at new
              cases new
            exact (Dict.get_set_ne _ _ ne).trans (rebuilt.counts c new)

theorem foldlM_rebuild_rebuilt {sagas : Dict Cloid Order} {reads : Reads}
    {venue after : PaperExchange} {rows : List Order} (rebuilt : Rebuilt sagas venue)
    (each : ∀ saga ∈ rows, sagas.get saga.cloid = some saga ∧ saga.state.isWorking = true)
    (starts : rows.foldlM (PaperExchange.rebuild reads) venue = .ok after) :
    Rebuilt sagas after := by
  induction rows generalizing venue with
  | nil => cases starts; exact rebuilt
  | cons saga rest ih =>
      rw [List.foldlM_cons] at starts
      obtain ⟨held, working⟩ := each saga List.mem_cons_self
      cases first : PaperExchange.rebuild reads venue saga with
      | error violation => rw [first] at starts; cases starts
      | ok between =>
          rw [first] at starts
          exact ih (rebuild_rebuilt rebuilt held working first)
            (fun other member => each other (List.mem_cons_of_mem _ member)) starts

/-- **A restart begins orderly**: every order it rests is answered by its own row. -/
theorem restart_orderly {exempt : Cloid → Prop} {desk : Desk} {nowNs : Nanos}
    {venue : PaperExchange}
    (keyed : ∀ c order, desk.sagas.get c = some order → order.cloid = c)
    (counted : ∀ c order, desk.sagas.get c = some order → Counted order)
    (starts : PaperExchange.start (desk.reads nowNs) {} desk.sagas.values = .ok venue) :
    Orderly exempt { desk with venue := venue, pending := [], readings := [] } := by
  have empty : Rebuilt desk.sagas {} := by
    refine ⟨fun c resting there => ?_, fun c report there => ?_, fun c => rfl, fun c _ => rfl⟩
    · cases there
    · cases there
  have rebuilt : Rebuilt desk.sagas venue := by
    refine foldlM_rebuild_rebuilt empty (fun saga member => ?_) starts
    obtain ⟨row, fits⟩ := List.mem_filter.mp member
    obtain ⟨c, held⟩ := (Dict.mem_values _ _).mp row
    simp only [Bool.and_eq_true] at fits
    exact ⟨by rw [keyed c saga held]; exact held, fits.1.1.1⟩
  refine ⟨keyed, counted, fun c order held => trivial, fun c resting there => ?_,
    fun c resting there _ => ?_, rebuilt.named, fun c fill member => ?_, nofun,
    fun c new => ⟨nofun, rebuilt.counts c new⟩⟩
  · obtain ⟨saga, held, working, count, within, _⟩ := rebuilt.rests c resting there
    have own := keyed c saga held
    have lasts : saga.isTerminal = false := by
      cases is : saga.state <;> simp [is, Order.isTerminal, OrderState.isWorking,
        OrderState.isTerminal] at *
    refine ⟨saga, held, ?_, ?_, (counted c saga held).short lasts, within⟩
    · rw [own]
      exact count
    · simp [Desk.landing, tallyOf, lasts]
  · obtain ⟨saga, _, working, _, _, report, answered, status⟩ := rebuilt.rests c resting there
    exact ⟨report, answered, by rw [status]; exact working⟩
  · have none := rebuilt.fills c
    rw [show venue.fillsOf c = [] from none] at member
    cases member

/-! ## The run -/

/-- A step that rests no order in silence, and delivers again only what
`Redelivers` lets it. -/
def Answerable (config : DeskConfig) (desk : Desk) : DeskLabel → Prop
  | .place signal quantity price basis model nowNs =>
      ∀ request, desk.sagas.get (config.deriveCloid signal.signalId) = none →
        placeOrderOf (Desk.opened config signal quantity price basis nowNs) = .ok request →
        arrivesPartly model desk.venue (desk.reads nowNs) request = false
  | .redeliver report _ => Redelivers desk report
  | .cancel _ _ | .tick _ _ _ | .dispatch _ | .read _ | .conclude _ _ _ _ | .restart _ => True

/-- An operation begins on the venue as it is. -/
theorem Orderly.idle {exempt : Cloid → Prop} {desk : Desk} (orderly : Orderly exempt desk)
    {venue : PaperExchange} (book : venue.book = desk.venue.book)
    (counts : venue.fillCounts = desk.venue.fillCounts)
    (statuses : venue.statuses = desk.venue.statuses) (fills : venue.fills = desk.venue.fills) :
    Orderly exempt (desk.during { venue := venue }) := by
  have pending : (desk.during { venue := venue }).pending = desk.pending := by simp [Desk.during]
  have landing : ∀ order, (desk.during { venue := venue }).landing order = desk.landing order := by
    intro order
    rw [Desk.landing, Desk.landing, pending]
  have landed : ∀ c fill, desk.Landed c fill → (desk.during { venue := venue }).Landed c fill := by
    rintro c fill ⟨same, order, held, number, positive, old, is⟩
    exact ⟨same, order, held, number, positive, by rw [landing]; exact old, is⟩
  refine ⟨orderly.keyed, orderly.counted, fun c order held => ?_, fun c resting there => ?_,
    fun c resting there free => ?_, fun c report held => ?_, fun c fill member => ?_,
    fun c view held => ?_, fun c new => ?_⟩
  · rw [pending]
    exact orderly.flows c order held
  · replace there : venue.book.get c = some resting := there
    rw [book] at there
    obtain ⟨order, held, backed⟩ := orderly.backed c resting there
    refine ⟨order, held, ?_, ?_, ?_, ?_⟩
    · rw [landing, ← backed.counted]
      exact congrArg (fun table => (Dict.get table order.cloid).getD 0) counts
    · rw [landing]
      exact backed.lasts
    · rw [landing]
      exact backed.short
    · rw [landing]
      exact backed.within
  · replace there : venue.book.get c = some resting := there
    rw [book] at there
    obtain ⟨report, held, working⟩ := orderly.answered c resting there free
    exact ⟨report, (congrArg (fun table => Dict.get table c) statuses).trans held, working⟩
  · have was := (congrArg (fun table => Dict.get table c) statuses).symm.trans held
    exact orderly.named c report was
  · refine landed c fill (orderly.remembered c fill ?_)
    replace member : fill ∈ venue.fillsOf c := member
    rwa [PaperExchange.fillsOf, fills] at member
  · have vouched := orderly.readings c view held
    refine ⟨vouched.known, fun rests => vouched.answers ?_, vouched.named,
      fun fill member => landed c fill (vouched.fills fill member)⟩
    replace rests : (venue.book.get c).isSome = true := rests
    rwa [book] at rests
  · obtain ⟨absent, none⟩ := orderly.unknown c new
    rw [pending]
    exact ⟨absent, (congrArg (fun table => Dict.get table c) counts).trans none⟩

/-- **A placement keeps it**, its own order exempt. -/
theorem Orderly.placed {exempt : Cloid → Prop} {desk : Desk} (orderly : Orderly exempt desk)
    {saga : Order} {model : FillModel} {nowNs : Nanos} {request : PlaceOrder} {turn : Turn}
    (own : exempt saga.cloid) (new : desk.sagas.get saga.cloid = none) (counted : Counted saga)
    (tally : tallyOf saga = ⟨0, 0, false⟩) (unfilled : saga.cumQty = 0)
    (positive : 0 < saga.quantity) (built : placeOrderOf saga = .ok request)
    (placed : Turn.place config.paper model { venue := desk.venue } (desk.reads nowNs) request =
      .ok turn) :
    Orderly exempt ({ desk with sagas := desk.sagas.set saga.cloid saga }.during turn) := by
  let with_ : Desk := { desk with sagas := desk.sagas.set saga.cloid saga }
  obtain ⟨cloid, _, _, quantity, _⟩ := placeOrderOf_terms built
  have fresh : desk.venue.book.get request.cloid = none := by
    rw [cloid]
    exact orderly.fresh new
  obtain ⟨⟨start, last, begins, moves, ends⟩, _⟩ := Turn.place_path fresh placed
  have opened : Orderly exempt (with_.during { venue := desk.venue }) :=
    (orderly.opens counted new).idle rfl rfl rfl rfl
  have held : with_.sagas.get request.cloid = some saga := by
    rw [cloid]
    exact Dict.get_set_self ..
  have newborn : Newborn (with_.during { venue := desk.venue }) saga request := by
    obtain ⟨absent, uncounted⟩ := orderly.unknown _ new
    refine ⟨held, ?_, ?_, fresh, fun view read => ?_, ?_, positive⟩
    · show (tallyOf saga).after saga.cloid (desk.pending ++ []) = _
      rw [List.append_nil, (@Tally.after_absent _ saga.quantity _ _ absent).1, tally]
    · show (desk.venue.fillCounts.get request.cloid).getD 0 = 0
      rw [cloid, uncounted]
      rfl
    · have known := (orderly.readings _ view read).known
      rw [cloid, new] at known
      cases known
    · rw [quantity, unfilled, sub_zero]
  have known : (with_.sagas.get request.cloid).isSome = true := by rw [held]; rfl
  exact ((opened.begins (cloid ▸ own) newborn begins).moves moves).ends known ends

/-- **A placement keeps it**, where its order does not rest in silence. -/
theorem place_orderly {desk : Desk} (orderly : Orderly (fun _ => False) desk) {saga : Order}
    {model : FillModel} {nowNs : Nanos} {request : PlaceOrder} {turn : Turn}
    (new : desk.sagas.get saga.cloid = none) (counted : Counted saga)
    (tally : tallyOf saga = ⟨0, 0, false⟩) (unfilled : saga.cumQty = 0)
    (positive : 0 < saga.quantity) (built : placeOrderOf saga = .ok request)
    (announced : arrivesPartly model desk.venue (desk.reads nowNs) request = false)
    (placed : Turn.place config.paper model { venue := desk.venue } (desk.reads nowNs) request =
      .ok turn) :
    Orderly (fun _ => False)
      ({ desk with sagas := desk.sagas.set saga.cloid saga }.during turn) := by
  have exempted : Orderly (· = request.cloid) desk :=
    ⟨orderly.keyed, orderly.counted, orderly.flows, orderly.backed,
      fun c resting there _ => orderly.answered c resting there id, orderly.named,
      orderly.remembered, orderly.readings, orderly.unknown⟩
  obtain ⟨cloid, _⟩ := placeOrderOf_terms built
  have fresh : desk.venue.book.get request.cloid = none := by
    rw [cloid]
    exact orderly.fresh new
  have ended := exempted.placed cloid.symm new counted tally unfilled positive built placed
  refine ended.settles ((Turn.place_path fresh placed).comes.resolve_right fun partly => ?_)
  rw [announced] at partly
  cases partly

/-- **Every answerable step keeps the desk orderly.** -/
theorem step_orderly {desk after : Desk} {label : DeskLabel}
    (orderly : Orderly (fun _ => False) desk) (answerable : Answerable config desk label)
    (stepped : (deskMachine config).step desk label = some after) :
    Orderly (fun _ => False) after := by
  simp only [deskMachine] at stepped
  cases label with
  | place signal quantity price basis model nowNs =>
      dsimp only at stepped
      split at stepped
      · cases stepped
      · rename_i positive
        cases new : desk.sagas.get (config.deriveCloid signal.signalId) with
        | some known =>
            rw [new] at stepped
            cases stepped
            exact orderly
        | none =>
            simp only [new, Option.bind_eq_some_iff, Option.map_eq_some_iff] at stepped
            obtain ⟨request, built, turn, placed, rfl⟩ := stepped
            replace built := ok_of_toOption built
            replace placed := ok_of_toOption placed
            obtain ⟨counted, tally⟩ :=
              opened_counted config signal (not_le.mp positive) price basis nowNs
            exact place_orderly orderly new counted tally rfl (not_le.mp positive) built
              (answerable request new built) placed
  | cancel refs nowNs =>
      cases stepped
      have begun : Orderly (fun _ => False) (desk.during { venue := desk.venue }) :=
        orderly.idle rfl rfl rfl rfl
      exact begun.moves (@Turn.cancel_moves config.paper (desk.reads nowNs) _ refs)
  | tick tick model nowNs =>
      simp only [Option.map_eq_some_iff] at stepped
      obtain ⟨turn, ticked, rfl⟩ := stepped
      replace ticked := ok_of_toOption ticked
      let cached : PaperExchange := { desk.venue with
        latestTick := desk.venue.latestTick.set tick.symbol tick
        unapplied := drain (desk.reads nowNs) desk.venue.unapplied }
      have begun : Orderly (fun _ => False) (desk.during { venue := cached }) :=
        orderly.idle rfl rfl rfl rfl
      exact begun.moves (Turn.matchBook_moves ticked)
  | dispatch nowNs =>
      cases front : desk.pending with
      | nil => rw [front] at stepped; cases stepped
      | cons report rest =>
          simp only [front] at stepped
          exact orderly.dispatches front (ok_of_toOption stepped)
  | redeliver report nowNs =>
      exact orderly.redelivers answerable (ok_of_toOption stepped)
  | read cloid =>
      dsimp only at stepped
      split at stepped
      · rename_i known
        cases stepped
        refine ⟨orderly.keyed, orderly.counted, orderly.flows, fun c resting there => ?_,
          orderly.answered, orderly.named, orderly.remembered, fun c view held => ?_,
          orderly.unknown⟩
        · obtain ⟨order, held, backed⟩ := orderly.backed c resting there
          exact ⟨order, held, backed.counted, backed.lasts, backed.short, backed.within⟩
        · have vouched : Vouched desk c view := by
            rcases List.mem_append.mp held with old | new
            · exact orderly.readings c view old
            · cases List.mem_singleton.mp new
              exact orderly.vouches known
          exact ⟨vouched.known, vouched.answers, vouched.named, vouched.fills⟩
      · cases stepped
  | conclude cloid view conclusion nowNs =>
      dsimp only at stepped
      split at stepped
      · rename_i read
        obtain ⟨order, held, rfl⟩ := Option.map_eq_some_iff.mp stepped
        have vouched := orderly.readings cloid view read
        exact orderly.puts vouched.known
          (concluded_harmless vouched (orderly.keyed cloid order held))
      · cases stepped
  | restart nowNs =>
      obtain ⟨venue, starts, rfl⟩ := Option.map_eq_some_iff.mp stepped
      exact restart_orderly orderly.keyed orderly.counted (ok_of_toOption starts)

/-- Where a run starts: a process with an empty venue over any rows whose fills
paper numbered. -/
structure Desk.Opens (desk : Desk) : Prop where
  venue : desk.venue = {}
  pending : desk.pending = []
  readings : desk.readings = []
  keyed : ∀ c order, desk.sagas.get c = some order → order.cloid = c
  counted : ∀ c order, desk.sagas.get c = some order → Counted order

theorem Desk.Opens.orderly {desk : Desk} (opens : desk.Opens) : Orderly (fun _ => False) desk := by
  obtain ⟨venue, pending, readings, keyed, counted⟩ := opens
  refine ⟨keyed, counted, fun c order held => ?_, fun c resting there => ?_,
    fun c resting there => ?_, fun c report held => ?_, fun c fill member => ?_,
    fun c view held => ?_, fun c _ => ⟨?_, ?_⟩⟩
  · rw [pending]
    trivial
  · rw [venue] at there
    cases there
  · rw [venue] at there
    cases there
  · rw [venue] at held
    cases held
  · rw [venue] at member
    cases member
  · rw [readings] at held
    cases held
  · rw [pending]
    intro report member
    cases member
  · rw [venue]
    rfl

/-- A resting order is answered for, and never taken for a ghost. -/
structure Answered (config : DeskConfig) (desk : Desk) : Prop where
  /-- `fetch_order` answers every order on the book with a working status. -/
  status : ∀ cloid, (desk.venue.book.get cloid).isSome = true →
    ∃ report, (desk.venue.fetchOrder cloid).status = some report ∧
      (report.status = .live ∨ report.status = .partiallyFilled)
  /-- No pass ends the saga of an order that rests. -/
  verdict : ∀ cloid view order conclusion nowNs report, (cloid, view) ∈ desk.readings →
    (desk.venue.book.get cloid).isSome = true → desk.sagas.get cloid = some order →
    .status report ∈ concluded config.reconcile order view nowNs conclusion →
    report.status.isTerminal = false
  /-- A fill at the front of the bus is booked already, or meets a saga that has not
  ended. -/
  welcome : ∀ fill rest order, desk.pending = .fill fill :: rest →
    desk.sagas.get fill.cloid = some order →
    EventId.fill order.cloid fill.tradeId ∈ order.appliedEventIds ∨ order.isTerminal = false

theorem Orderly.answers {desk : Desk} (orderly : Orderly (fun _ => False) desk) :
    Answered config desk := by
  refine ⟨fun cloid rests => ?_,
    fun cloid view order conclusion nowNs report read rests held member => ?_,
    fun fill rest order front held => ?_⟩
  · obtain ⟨resting, there⟩ := Option.isSome_iff_exists.mp rests
    obtain ⟨report, answered, working⟩ := orderly.answered cloid resting there id
    refine ⟨report, answered, ?_⟩
    cases is : report.status <;> simp [is, OrderState.isWorking] at *
  · have harmless := concluded_harmless (orderly.readings cloid view read)
      (orderly.keyed cloid order held) _ member
    by_contra ends
    rw [Bool.not_eq_false] at ends
    rw [harmless.2 ends] at rests
    cases rests
  · have flows := orderly.flows _ _ held
    have counted := orderly.counted _ _ held
    have keyed := orderly.keyed _ _ held
    rw [front] at flows
    rcases flows.1 rfl with ⟨number, positive, old, is⟩ | ⟨_, lasts, short⟩
    · refine .inl ((counted.numbered _).mpr ⟨number, positive, old, ?_⟩)
      rw [keyed]
      exact is
    · refine .inr ?_
      by_contra ended
      rw [Bool.not_eq_false] at ended
      simp only [tallyOf, ended, Bool.true_and, decide_eq_false_iff_not, not_not] at lasts
      exact absurd short (not_lt.mpr (counted.whole lasts))

namespace Sample

/-- Every order is reached in the queue, and fills by half. -/
def byHalf : FillModel :=
  stochasticFillModel (1 / 2) (fun _ _ => true) fun _ tick => tick.price

def desk : DeskConfig where
  deriveCloid _ := "0x01"
  reconcile := { inflightMaxAttempts := 3, ghostGraceNs := 90, recentOrderProtectionNs := 10 }

/-- A buy of ten at two, good till cancelled. -/
def bid : PlaceSignal where
  strategyId := ⟨"passive", by decide⟩
  symbol := "BTC"
  seq := 1
  side := .buy
  quantity := 10
  orderType := .limit
  timeInForce := .gtc
  price := some 2

def tickAt (price : Decimal) : MarketTick := { symbol := "BTC", price := price }

/-- The half the market fills as it comes to the bid. -/
def firstHalf : FillReport where
  cloid := "0x01"
  symbol := "BTC"
  tradeId := "0x01-1"
  quantity := 5
  price := 2
  fee := 0

/-- The bid rests below the market, is acknowledged and read, and fills by half as the
market comes to it.  The process ends on that fill, and the next one hears it. -/
def bidRests : List DeskLabel :=
  [.tick (tickAt 3) byHalf 1, .place bid 10 (some 2) none byHalf 2, .dispatch 3, .read "0x01",
    .tick (tickAt 2) byHalf 4, .restart 5, .redeliver firstHalf 6, .read "0x01"]

/-- `Answerable`, for what the runs here do. -/
def fits (before : Desk) : DeskLabel → Bool
  | .place signal quantity price basis model nowNs =>
      match placeOrderOf (Desk.opened desk signal quantity price basis nowNs) with
      | .error _ => true
      | .ok request => !arrivesPartly model before.venue (before.reads nowNs) request
  | .redeliver report _ =>
      before.pending.isEmpty && (before.sagas.get report.cloid).all fun order =>
        decide (report.tradeId = tradeId report.cloid (order.fillCount + 1))
  | _ => true

theorem answerable_of_fits {before : Desk} {label : DeskLabel} (fit : fits before label = true) :
    Answerable desk before label := by
  cases label with
  | place signal quantity price basis model nowNs =>
      intro request _ built
      simp only [fits, built] at fit
      simpa using fit
  | redeliver report nowNs =>
      intro order held
      simp only [fits, held, Option.all_some, Bool.and_eq_true, decide_eq_true_eq,
        List.isEmpty_iff] at fit
      refine ⟨_, Nat.le_add_left 1 _, fit.2, .inr ⟨rfl, fun fill member => ?_⟩⟩
      rw [fit.1] at member
      cases member
  | _ => trivial

/-- The bid at the market. -/
def bidCrosses : List DeskLabel :=
  [.tick (tickAt 2) byHalf 1, .place bid 10 (some 2) none byHalf 2]

end Sample

end Tickwright.Paper
