/-
# Hyperliquid.Settlement -- what is queued settles as the venue has it

The invariant of a track: handle everything queued, whenever its turn comes, and
the saga stays faithful to the venue the whole way and ends having met whatever
was published (`Settled`).  It holds along every run whose steps stay off the
defects of the source, and those steps are named one by one in `Sound`.

The same induction serves two readings.  Loosely, a queued report may still
fault, and then the engine stops where it is.  Strictly, none does: the extra
facts a strict reading needs (`Regular`, `Ready`) are carried beside the others,
and `Clean` names the extra steps it has to stay off.
-/
import Tickwright.Hyperliquid.Faithful

namespace Tickwright.Hyperliquid

open Tickwright.Domain Tickwright.Engine Tickwright.Theory VenueOrder

set_option autoImplicit false

variable {strict : Prop} {venue : VenueOrder} {order after : Order}

/-! ## What the queue is judged by -/

/-- Every state on the way. -/
def Along (strict : Prop) (venue : VenueOrder) (order : Order) : Prop :=
  Faithful venue order ∧ (strict → Regular order)

/-- The ack is booked, or no longer matters. -/
def Acked (order : Order) : Prop := Reflects order .live ∨ order.isTerminal = true

/-- An ack is still in order. -/
def Orderly (order : Order) : Prop := Acked order ∨ ∀ tradeId, ¬ Booked order tradeId

/-- A reading of a working order with no fills: what `_adopt` publishes as a bare
`LIVE`. -/
def BareLive (view : VenueOrderView) : Prop :=
  ∃ status, view.status = some status ∧ status.status = .live ∧ view.fills = []

/-- What was published for this placement has been met. -/
def Placement.Due (order : Order) : Placement → Prop
  | .filling _ _ published _ => ∀ fill ∈ published, Booked order fill.tradeId
  | .out | .back => True

/-- What this look replayed has been met. -/
def Look.Due (order : Order) : Look → Prop
  | .replaying _ view rest => ∀ fill ∈ view.fills, fill ∈ rest ∨ Booked order fill.tradeId
  | .idle | .asked _ | .found .. | .gone _ | .holding .. => True

/-- The placement's next report will be no fault. -/
def Placement.Ready (order : Order) : Placement → Prop
  | .out => order.state ≠ .pending
  | .filling .. => order.state ≠ .pending ∧ Acked order
  | .back => True

/-- The look's next report will be no fault. -/
def Look.Ready (order : Order) : Look → Prop
  | .holding _ view => BareLive view → Orderly order
  | .replaying _ view _ => order.state ≠ .pending ∧ (BareLive view → Orderly order)
  | .idle | .asked _ | .found .. | .gone _ => True

/-- What an open-order pass saw when it began. -/
def Watched (looks : Cycle → Look) (order : Order) : Prop :=
  looks .openOrders ≠ .idle → Acked order ∨ ∃ tradeId, Booked order tradeId

/-- The state the queue lands in. -/
def Landed (strict : Prop) (placement : Placement) (looks : Cycle → Look) (order : Order) : Prop :=
  placement.Due order ∧ (∀ cycle, (looks cycle).Due order) ∧
    (strict → placement.Ready order ∧ (∀ cycle, (looks cycle).Ready order) ∧ Watched looks order)

/-- The saga, and everything queued for it. -/
def Queued (strict : Prop) (venue : VenueOrder) (landed : Order → Prop) (saga : Order)
    (queue : List ExecutionReport) : Prop :=
  Ahead absorb (¬ strict) (Along strict venue) landed saga queue

/-! ## What a reading in hand is -/

/-- What a successful read says of the order as it is now. -/
structure Seen (venue : VenueOrder) (ref : OrderRef) (view : VenueOrderView) : Prop where
  real : ∀ fill ∈ view.fills, fill ∈ venue.fills
  status : ∀ report, view.status = some report →
    (report.venueOid.isSome = true → venue.stage ≠ .onWire) ∧
    match report.status with
    | .live => venue.accepted = true
    | .filled | .cancelled => venue.ended = true ∧ ∀ fill ∈ venue.fills, fill ∈ view.fills
    | .rejected => venue.stage = .refused
    | _ => False
  /-- No record, asked by the oid: the venue dropped it, and the fills are all. -/
  absent : view.status = none → ref.venueOid.isSome = true →
    venue.accepted = true → venue.ended = true ∧ ∀ fill ∈ venue.fills, fill ∈ view.fills

/-- A ref that names an oid is of an order off the wire. -/
def Named (venue : VenueOrder) (ref : OrderRef) : Prop :=
  ref.venueOid.isSome = true → venue.stage ≠ .onWire

/-- What a record in hand says of the order as it is now. -/
def Recorded (venue : VenueOrder) (record : OrderRecord) : Prop :=
  venue.stage ≠ .onWire ∧
  match record.state with
  | .live => venue.accepted = true
  | .filled | .cancelled => venue.ended = true
  | .rejected => venue.stage = .refused
  | _ => False

def Look.Sound (venue : VenueOrder) : Look → Prop
  | .idle => True
  | .asked ref => Named venue ref
  | .found ref record _ => Named venue ref ∧ Recorded venue record
  | .gone ref => Named venue ref ∧ venue.stage ≠ .onWire ∧
      (venue.accepted = true → venue.ended = true)
  | .holding ref view => Named venue ref ∧ Seen venue ref view
  | .replaying ref view rest => Named venue ref ∧ Seen venue ref view ∧
      ∀ fill ∈ rest, fill ∈ view.fills

def Placement.Sound (venue : VenueOrder) : Placement → Prop
  | .filling .. => venue.ended = true
  | .out | .back => True

/-! ## The invariant -/

/-- **The invariant of a track.** -/
structure Settled (strict : Prop) (track : Track) : Prop where
  ahead : Queued strict track.venue (Landed strict track.placement track.looks) track.saga
    track.queue
  row : Along strict track.venue track.row
  /-- A row lags its saga only between a placement's write and its return. -/
  lags : track.row = track.saga ∨ track.row.state = .pending
  looks : ∀ cycle, (track.looks cycle).Sound track.venue
  placement : track.placement.Sound track.venue
  verdicts : CancelVerdict.cancelled ∈ track.verdicts → track.venue.stage = .cancelled
  boot : track.cleared = false →
    track.looks .inflight = .idle ∧ track.looks .openOrders = .idle ∧ track.placement = .back
  running : track.cleared = true → track.looks .startup = .idle
  fault : strict → track.fault = none

/-! ## The steps to stay off -/

/-- The ack is booked or queued. -/
def Track.AckKnown (track : Track) : Prop :=
  Reflects track.saga .live ∨
    ∃ report, ExecutionReport.status report ∈ track.queue ∧ report.status = .live

/-- This trade is booked or queued. -/
def Track.TradeKnown (track : Track) (tradeId : String) : Prop :=
  Booked track.saga tradeId ∨
    ∃ report, ExecutionReport.fill report ∈ track.queue ∧ report.tradeId = tradeId

/-- The look publishes a `FAILED` verdict as it opens. -/
def Track.GivesUp (config : Config) (track : Track) (cycle : Cycle) (nowNs : Nanos) : Prop :=
  ∃ ref view report, track.looks cycle = .holding ref view ∧
    (track.opensWith config cycle view nowNs).1 = some (.failed report)

/-- The look resolves a ghost as it closes. -/
def Track.Ghosts (config : Config) (track : Track) (cycle : Cycle) (nowNs : Nanos)
    (ref : OrderRef) (report : OrderStatusReport) : Prop :=
  ∃ view, track.looks cycle = .replaying ref view [] ∧ view.status = none ∧
    (Reconciler.closing config.reconcile track.saga view track.lastEventNs track.absence
      nowNs).1 = some report

/-- The cancel's answer, next to be applied, says the venue cancelled the order. -/
def Track.CancelSucceeds (track : Track) : Prop := track.verdicts.head? = some .cancelled

/-- Every fill the venue holds is booked or queued. -/
def Track.AllKnown (track : Track) : Prop :=
  ∀ fill ∈ track.venue.fills, track.TradeKnown fill.tradeId

/-- What is booked or queued ends the saga. -/
def Track.EndKnown (track : Track) : Prop :=
  track.saga.isTerminal = true ∨
    (∃ report, ExecutionReport.status report ∈ track.queue ∧
      (report.status = .cancelled ∨ report.status = .rejected ∨ report.status = .failed)) ∨
    (track.venue.total = track.venue.asked ∧ track.AllKnown)

/-- An ack published now is in order: it is known already, or no fill is, or the
saga will be over. -/
def Track.AckInOrder (track : Track) : Prop :=
  track.AckKnown ∨ (∀ tradeId, ¬ track.TradeKnown tradeId) ∨ track.EndKnown

/-- The saga is past `PENDING`, or the bridge out of it is queued. -/
def Track.SentKnown (track : Track) : Prop :=
  track.saga.state ≠ .pending ∨
    ∃ report, ExecutionReport.status report ∈ track.queue ∧ report.status = .submitted

/-- **A step that stays off the defects that lose fills.** -/
def Sound (config : Config) (track : Track) : Track.Step → Prop
  -- No `FAILED` verdict was drawn on an order that lands after all.
  | .venue (.accepts _ _) => track.saga.state ≠ .failed ∧
      ∀ report, ExecutionReport.status report ∈ track.queue → report.status ≠ .failed
  | .look cycle .opens nowNs => track.GivesUp config cycle nowNs → track.venue.accepted = false
  -- A ghost is resolved off a reading made by the oid, or with nothing left to lose.
  | .look cycle .closes nowNs => ∀ ref report, track.Ghosts config cycle nowNs ref report →
      ref.venueOid.isSome = true ∨ (track.venue.ended = true ∧ track.AllKnown)
  -- A cancel's success comes after every fill is on its way.
  | .cancel .answers _ => track.CancelSucceeds → track.AllKnown
  -- One process over the in-memory bus: a crash loses what was queued.
  | .crashes _ kept => kept = 0
  | _ => True

/-- **A step that stays off the defects that fault.** -/
def Clean (config : Config) (track : Track) : Track.Step → Prop
  -- No replayed fill overtook the placement's ack.
  | .placement .resting _ | .placement .filled _ => track.AckInOrder
  -- No ghost is rejected while a replayed fill is still queued.
  | .look cycle .closes nowNs => ∀ ref report, track.Ghosts config cycle nowNs ref report →
      report.status = .rejected →
        (∀ fill, ExecutionReport.fill fill ∉ track.queue) ∨ track.EndKnown
  | .cancel .answers _ => track.CancelSucceeds → track.SentKnown
  | _ => True

/-! ## What reports do to what is due -/

theorem acked_mono {report : ExecutionReport} {nowNs : Nanos}
    (absorbed : absorb order report nowNs = .ok after) (acked : Acked order) : Acked after :=
  acked.imp (reflects_mono absorbed) (terminal_mono absorbed)

theorem acked_of_live {report : OrderStatusReport} {nowNs : Nanos} (is : report.status = .live)
    (absorbed : absorb order (.status report) nowNs = .ok after) : Acked after := by
  have maps : mapsToMove report.status = true := by rw [is]; rfl
  have reflected := absorb_status_reflected maps absorbed
  unfold Acked Reflects
  rw [(absorb_terms absorbed).1.1, ← is]
  exact reflected

/-- No status books a trade, so an ack stays in order across one. -/
theorem orderly_status {report : OrderStatusReport} {nowNs : Nanos}
    (absorbed : absorb order (.status report) nowNs = .ok after) (orderly : Orderly order) :
    Orderly after :=
  orderly.imp (acked_mono absorbed) fun none_ tradeId booked =>
    none_ tradeId ((booked_status absorbed tradeId).mp booked)

/-- What is due stays met, and what is ready stays ready, where the report
touches no ack still to come. -/
theorem Landed.absorb {placement : Placement} {looks : Cycle → Look} {report : ExecutionReport}
    {nowNs : Nanos} (landed : Landed strict placement looks order)
    (absorbed : absorb order report nowNs = .ok after)
    (orderly : strict → Orderly order → (∃ cycle ref view, ((looks cycle = .holding ref view ∨
        ∃ rest, looks cycle = .replaying ref view rest) ∧ BareLive view)) → Orderly after) :
    Landed strict placement looks after := by
  obtain ⟨placed, looked, ready⟩ := landed
  refine ⟨?_, fun cycle => ?_, fun is => ?_⟩
  · cases placement with
    | filling oid totalSz published retries =>
        exact fun fill member => booked_mono absorbed (placed fill member)
    | out => trivial
    | back => trivial
  · have due := looked cycle
    cases look : looks cycle with
    | replaying ref view rest =>
        rw [look] at due
        exact fun fill member => (due fill member).imp_right (booked_mono absorbed)
    | _ => trivial
  · obtain ⟨out, looking, watched⟩ := ready is
    refine ⟨?_, fun cycle => ?_, fun active => ?_⟩
    · cases placement with
      | out => exact past_pending absorbed out
      | filling oid totalSz published retries =>
          exact ⟨past_pending absorbed out.1, acked_mono absorbed out.2⟩
      | back => trivial
    · have here := looking cycle
      cases look : looks cycle with
      | holding ref view =>
          rw [look] at here
          exact fun bare => orderly is (here bare)
            ⟨cycle, ref, view, Or.inl look, bare⟩
      | replaying ref view rest =>
          rw [look] at here
          exact ⟨past_pending absorbed here.1, fun bare => orderly is (here.2 bare)
            ⟨cycle, ref, view, Or.inr ⟨rest, look⟩, bare⟩⟩
      | _ => trivial
    · rcases watched active with acked | ⟨tradeId, booked⟩
      · exact Or.inl (acked_mono absorbed acked)
      · exact Or.inr ⟨tradeId, booked_mono absorbed booked⟩

theorem Landed.absorb_status {placement : Placement} {looks : Cycle → Look}
    {report : OrderStatusReport} {nowNs : Nanos} (landed : Landed strict placement looks order)
    (absorbed : Engine.absorb order (.status report) nowNs = .ok after) :
    Landed strict placement looks after :=
  landed.absorb absorbed fun _ orderly _ => orderly_status absorbed orderly

/-! ## When a report is taken -/

theorem takes_live {report : OrderStatusReport} (regular : Regular order)
    (is : report.status = .live) (past : order.state ≠ .pending) (orderly : Orderly order) :
    Takes order (.status report) := by
  simp only [Takes]
  rw [is]
  rcases orderly with (reflected | terminal) | none_
  · exact Or.inr (Or.inr (Or.inl reflected))
  · exact Or.inl terminal
  · cases state : order.state with
    | pending => exact absurd state past
    | submitted => exact Or.inr (Or.inr (Or.inr rfl))
    | live => exact Or.inr (Or.inr (Or.inl (regular.acked state)))
    | partiallyFilled =>
        obtain ⟨tradeId, booked⟩ := regular.part state
        exact absurd booked (none_ tradeId)
    | _ => exact Or.inl (by unfold Order.isTerminal; rw [state]; rfl)

theorem takes_cancelled {report : OrderStatusReport} (is : report.status = .cancelled)
    (past : order.state ≠ .pending) : Takes order (.status report) := by
  simp only [Takes]
  rw [is]
  cases state : order.state with
  | pending => exact absurd state past
  | submitted => exact Or.inr (Or.inr (Or.inr rfl))
  | live => exact Or.inr (Or.inr (Or.inr rfl))
  | partiallyFilled => exact Or.inr (Or.inr (Or.inr rfl))
  | _ => exact Or.inl (by unfold Order.isTerminal; rw [state]; rfl)

theorem takes_submitted {report : OrderStatusReport} (regular : Regular order)
    (is : report.status = .submitted) : Takes order (.status report) := by
  simp only [Takes]
  rw [is]
  by_cases pending : order.state = .pending
  · exact Or.inr (Or.inr (Or.inr (by rw [pending]; rfl)))
  · rcases regular.sent pending with terminal | sent
    · exact Or.inl terminal
    · exact Or.inr (Or.inr (Or.inl sent))

/-- Before acceptance a `FAILED` or `REJECTED` meets a saga it ends, or one that
is over. -/
theorem takes_refusal {report : OrderStatusReport} (faithful : Faithful venue order)
    (not : venue.accepted = false)
    (is : report.status = .failed ∨ (report.status = .rejected ∧ order.state ≠ .pending)) :
    Takes order (.status report) := by
  simp only [Takes]
  rcases faithful.early not with state | state | state | ⟨state, _⟩
  · rcases is with is | ⟨_, past⟩
    · rw [is, state]; exact Or.inr (Or.inr (Or.inr rfl))
    · exact absurd state past
  · rcases is with is | ⟨is, _⟩ <;> rw [is, state] <;> exact Or.inr (Or.inr (Or.inr rfl))
  · exact Or.inl (by unfold Order.isTerminal; rw [state]; rfl)
  · exact Or.inl (by unfold Order.isTerminal; rw [state]; rfl)

/-- A fill the venue holds is taken by every saga that was sent. -/
theorem takes_fill {report : FillReport} (faithful : Faithful venue order)
    (fact : Fact venue order (.fill report)) (past : order.state ≠ .pending) :
    Takes order (.fill report) := by
  obtain ⟨fill, member, trade, size⟩ := fact
  refine ⟨size ▸ venue.positive fill member, ?_⟩
  cases state : order.state with
  | pending => exact absurd state past
  | submitted => exact Or.inr (Or.inl rfl)
  | live => exact Or.inr (Or.inr rfl)
  | partiallyFilled => exact Or.inr (Or.inr rfl)
  | _ =>
      have whole := (faithful.ended (by unfold Order.isTerminal; rw [state]; rfl)
        (accepted_of_fill member)).2
      exact Or.inl (trade ▸ whole fill member)

/-! ## Publishing -/

namespace Queued

variable {landed landed' : Order → Prop} {saga : Order} {queue : List ExecutionReport}

theorem mono (queued : Queued strict venue landed saga queue)
    (atEnd : ∀ order, Along strict venue order → landed order → landed' order) :
    Queued strict venue landed' saga queue :=
  Ahead.mono queued (fun _ h => h) atEnd

/-- **Publish one report**: a fact, no fault where that is asked, for the saga
it will reach. -/
theorem publish {report : ExecutionReport} (queued : Queued strict venue landed saga queue)
    (fact : ∀ order, Along strict venue order → landed order → Fact venue order report)
    (takes : strict → ∀ order, Along strict venue order → landed order → Takes order report)
    (lands : ∀ order after nowNs, Along strict venue order → landed order →
      absorb order report nowNs = .ok after → landed' after) :
    Queued strict venue landed' saga (queue ++ [report]) := by
  refine Ahead.put queued fun order along due now => ?_
  cases turn : absorb order report now with
  | error violation =>
      intro is
      obtain ⟨after, absorbed⟩ := (takes is order along due).absorb now
      rw [absorbed] at turn
      cases turn
  | ok after =>
      exact ⟨⟨along.1.absorb (fact order along due) turn, fun is => (along.2 is).absorb turn⟩,
        lands order after now along due turn⟩

/-- Publish a list of fills the venue holds. -/
theorem publishFills (fills : List FillReport) (queued : Queued strict venue landed saga queue)
    (real : ∀ fill ∈ fills, fill ∈ venue.fills)
    (past : strict → ∀ order, landed order → order.state ≠ .pending)
    (keeps : ∀ order after fill nowNs, landed order →
      absorb order (.fill fill) nowNs = .ok after → landed after) :
    Queued strict venue (fun order => landed order ∧ ∀ fill ∈ fills, Booked order fill.tradeId)
      saga (queue ++ fills.map .fill) := by
  induction fills generalizing queue landed with
  | nil =>
      rw [List.map_nil, List.append_nil]
      exact queued.mono fun _ _ due => ⟨due, fun fill member => by cases member⟩
  | cons head rest ih =>
      have there := real head List.mem_cons_self
      have one : Queued strict venue (fun order => landed order ∧ Booked order head.tradeId) saga
          (queue ++ [.fill head]) := by
        refine queued.publish (fun order _ _ => ⟨head, there, rfl, rfl⟩) ?_ ?_
        · exact fun is order along due =>
            takes_fill along.1 ⟨head, there, rfl, rfl⟩ (past is order due)
        · intro order after nowNs _ due absorbed
          exact ⟨keeps order after head nowNs due absorbed,
            (booked_fill absorbed _).mpr (Or.inr rfl)⟩
      have more := ih one (fun fill member => real fill (List.mem_cons_of_mem _ member))
        (fun is order due => past is order due.1)
        (fun order after fill nowNs due absorbed =>
          ⟨keeps order after fill nowNs due.1 absorbed, booked_mono absorbed due.2⟩)
      rw [List.map_cons, List.append_cons]
      refine more.mono fun order _ due => ⟨due.1.1, fun fill member => ?_⟩
      rcases List.mem_cons.mp member with rfl | later
      · exact due.1.2
      · exact due.2 fill later

/-- A trade that is booked or queued is booked where the queue lands. -/
theorem tradeKnown {track : Track} (queued : Queued strict venue landed track.saga track.queue)
    {tradeId : String} (known : track.TradeKnown tradeId) :
    Queued strict venue (fun order => landed order ∧ Booked order tradeId) track.saga
      track.queue := by
  rcases known with booked | ⟨report, member, rfl⟩
  · refine (Ahead.carry queued (fun order => Booked order tradeId) booked ?_).mono (fun _ h => h.1) fun _ _ h => h
    intro i _ s now next _ booked absorbed
    exact booked_mono absorbed booked
  · refine Ahead.reflects queued member ?_ ?_
    · intro s now next _ absorbed
      exact (booked_fill absorbed _).mpr (Or.inr rfl)
    · intro j s now next booked absorbed
      exact booked_mono absorbed booked

/-- An ack that is booked or queued is booked where the queue lands, or no
longer matters. -/
theorem ackKnown {track : Track} (queued : Queued strict venue landed track.saga track.queue)
    (known : track.AckKnown) :
    Queued strict venue (fun order => landed order ∧ Acked order) track.saga track.queue := by
  rcases known with reflected | ⟨report, member, is⟩
  · refine (Ahead.carry queued Acked (Or.inl reflected) ?_).mono (fun _ h => h.1)
      fun _ _ h => h
    intro i _ s now next _ acked absorbed
    exact acked_mono absorbed acked
  · refine Ahead.reflects queued member ?_ ?_
    · intro s now next _ absorbed
      exact acked_of_live is absorbed
    · intro j s now next acked absorbed
      exact acked_mono absorbed acked

/-- A saga past `PENDING` stays past it. -/
theorem past (queued : Queued strict venue landed saga queue) (start : saga.state ≠ .pending) :
    Queued strict venue (fun order => landed order ∧ order.state ≠ .pending) saga queue := by
  refine (Ahead.carry queued (fun order => order.state ≠ .pending) start ?_).mono
    (fun _ h => h.1) fun _ _ h => h
  intro i _ s now next _ kept absorbed
  exact past_pending absorbed kept

/-- With every fill booked or queued, the queue lands with the whole booked. -/
theorem whole {track : Track} (queued : Queued strict venue landed track.saga track.queue)
    (known : ∀ fill ∈ venue.fills, track.TradeKnown fill.tradeId) :
    Queued strict venue (fun order => landed order ∧ Whole venue order) track.saga track.queue :=
  Ahead.all queued venue.fills fun fill member =>
    (queued.tradeKnown (known fill member)).mono fun _ _ h => h.2

/-- Where what is known ends the saga, the queue lands in a terminal one. -/
theorem finished {track : Track} (is : strict)
    (queued : Queued strict track.venue landed track.saga track.queue) (known : track.EndKnown) :
    Queued strict track.venue (fun order => landed order ∧ order.isTerminal = true) track.saga
      track.queue := by
  rcases known with terminal | ⟨report, member, ending⟩ | ⟨total, all⟩
  · refine (Ahead.carry queued (fun order : Order => order.isTerminal = true) terminal
      ?_).mono (fun _ h => h.1) fun _ _ h => h
    intro i _ s now next _ kept absorbed
    exact terminal_mono absorbed kept
  · refine Ahead.reflects queued member ?_ ?_
    · intro s now next along absorbed
      have maps : mapsToMove report.status = true := by
        rcases ending with is | is | is <;> rw [is] <;> rfl
      have regular := (along.2 is).absorb absorbed
      rcases absorb_status_reflected maps absorbed with reflected | terminal
      · rw [← (absorb_terms absorbed).1.1] at reflected
        refine regular.finished ?_
        rcases ending with is | is | is <;> rw [is] at reflected
        · exact Or.inl reflected
        · exact Or.inr (Or.inl reflected)
        · exact Or.inr (Or.inr reflected)
      · exact terminal
    · intro j s now next kept absorbed
      exact terminal_mono absorbed kept
  · refine (queued.whole all).mono fun order along landed => ⟨landed.1, ?_⟩
    by_contra open_
    have short := (along.2 is).short (by simpa using open_)
    rw [along.1.asked, along.1.whole_cum landed.2, total] at short
    exact lt_irrefl _ short

/-- An ack that is in order meets a saga it is in order for. -/
theorem orderly {track : Track} (is : strict)
    (queued : Queued strict track.venue landed track.saga track.queue)
    (known : track.AckInOrder) :
    Queued strict track.venue (fun order => landed order ∧ Orderly order) track.saga
      track.queue := by
  rcases known with acked | none_ | ends
  · exact (queued.ackKnown acked).mono fun _ _ h => ⟨h.1, Or.inl h.2⟩
  · refine (Ahead.carry queued (fun order => ∀ tradeId, ¬ Booked order tradeId)
      (fun tradeId booked => none_ tradeId (Or.inl booked)) ?_).mono (fun _ h => h.1)
      fun _ _ h => ⟨h.1, Or.inr h.2⟩
    intro i member s now next _ kept absorbed tradeId booked
    cases i with
    | status report => exact kept tradeId ((booked_status absorbed tradeId).mp booked)
    | fill report => exact none_ report.tradeId (Or.inr ⟨report, member, rfl⟩)
    | refused cloid symbol => cases absorbed; exact kept tradeId booked
  · exact (queued.finished is ends).mono fun _ _ h => ⟨h.1, Or.inl (Or.inr h.2)⟩

/-- A saga known to be sent is past `PENDING` where the queue lands. -/
theorem sent {track : Track} (is : strict)
    (queued : Queued strict venue landed track.saga track.queue) (known : track.SentKnown) :
    Queued strict venue (fun order => landed order ∧ order.state ≠ .pending) track.saga
      track.queue := by
  rcases known with past | ⟨report, member, bridge⟩
  · exact queued.past past
  · refine Ahead.reflects queued member ?_ fun j s now next kept absorbed =>
      past_pending absorbed kept
    intro s now next along absorbed pending
    have maps : mapsToMove report.status = true := by rw [bridge]; rfl
    rcases absorb_status_reflected maps absorbed with reflected | terminal
    · rw [← (absorb_terms absorbed).1.1, bridge] at reflected
      exact ((along.2 is).absorb absorbed).fresh pending reflected
    · unfold Order.isTerminal at terminal
      rw [pending] at terminal
      cases terminal

end Queued

end Tickwright.Hyperliquid
