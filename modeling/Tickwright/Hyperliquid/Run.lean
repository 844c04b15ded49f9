/-
# Hyperliquid.Run -- every sound step keeps a track settled

One lemma for each group of steps: the venue, the placement call, the cancels,
the reconcile cycles, the bus.  `step_settled` is their sum, `opened_settled`
the start, and `desk_settled` the run: whatever the orders, the venue, the
cycles and the crashes do, in any order, every track stays settled.
-/
import Tickwright.Hyperliquid.Settlement

namespace Tickwright.Hyperliquid

open Tickwright.Domain Tickwright.Engine Tickwright.Theory VenueOrder

set_option autoImplicit false

variable {strict : Prop} {config : Config}

/-! ## The venue moves -/

section Grown

variable {venue later : VenueOrder}

theorem accepted_before (grows : Grows venue later) (sent : venue.stage ≠ .onWire)
    (accepted : later.accepted = true) : venue.accepted = true := by
  unfold VenueOrder.accepted at accepted ⊢
  cases stage : venue.stage with
  | onWire => exact absurd stage sent
  | refused => rw [grows.refused stage] at accepted; cases accepted
  | _ => rfl

theorem Seen.grown {ref : OrderRef} {view : VenueOrderView} (seen : Seen venue ref view)
    (named : Named venue ref) (grows : Grows venue later) : Seen later ref view := by
  have whole : venue.ended = true → (∀ fill ∈ venue.fills, fill ∈ view.fills) →
      later.ended = true ∧ ∀ fill ∈ later.fills, fill ∈ view.fills := by
    intro ended all
    obtain ⟨stays, same⟩ := grows.ended ended
    rw [same]
    exact ⟨stays, all⟩
  refine ⟨fun fill member => grows.mem (seen.real fill member), fun report there => ?_, ?_⟩
  · obtain ⟨stamped, tells⟩ := seen.status report there
    refine ⟨fun some_ => not_onWire_grown grows (stamped some_), ?_⟩
    cases is : report.status <;> rw [is] at tells <;> dsimp only at tells ⊢
    case live => exact (grows.keeps tells).1
    case filled => exact whole tells.1 tells.2
    case cancelled => exact whole tells.1 tells.2
    case rejected => exact grows.refused tells
  · intro none_ some_ accepted
    have ended := seen.absent none_ some_ (accepted_before grows (named some_) accepted)
    exact whole ended.1 ended.2

theorem Look.Sound.grown {look : Look} (sound : look.Sound venue) (grows : Grows venue later) :
    look.Sound later := by
  have named : ∀ {ref}, Named venue ref → Named later ref :=
    fun named some_ => not_onWire_grown grows (named some_)
  cases look with
  | idle => trivial
  | asked ref => exact named sound
  | found ref record seen =>
      obtain ⟨ref_, sent, tells⟩ := sound
      refine ⟨named ref_, not_onWire_grown grows sent, ?_⟩
      cases is : record.state <;> rw [is] at tells <;> dsimp only at tells ⊢
      case live => exact (grows.keeps tells).1
      case filled => exact (grows.ended tells).1
      case cancelled => exact (grows.ended tells).1
      case rejected => exact grows.refused tells
  | gone ref =>
      obtain ⟨ref_, sent, ends⟩ := sound
      exact ⟨named ref_, not_onWire_grown grows sent, fun accepted =>
        (grows.ended (ends (accepted_before grows sent accepted))).1⟩
  | holding ref view => exact ⟨named sound.1, sound.2.grown sound.1 grows⟩
  | replaying ref view rest =>
      exact ⟨named sound.1, sound.2.1.grown sound.1 grows, sound.2.2⟩

end Grown

/-- A venue event puts an order into the book only by accepting it. -/
theorem happens_accepts {venue grown : VenueOrder} {event : VenueEvent}
    (happened : venue.happens event = some grown) (before : venue.accepted = false)
    (after : grown.accepted = true) :
    (∃ oid timestampMs, event = .accepts oid timestampMs) ∧ venue.stage = .onWire := by
  by_cases onWire : venue.stage = .onWire
  · refine ⟨?_, onWire⟩
    cases event with
    | accepts oid timestampMs => exact ⟨_, _, rfl⟩
    | refuses listed =>
        simp only [happens, refuse, dif_pos onWire, Option.some.injEq] at happened
        subst happened
        cases after
    | fills fill =>
        simp only [happens, VenueOrder.fill] at happened
        split at happened
        · rename_i h; rw [onWire] at h; cases h.1
        · cases happened
    | shrinks =>
        simp only [happens, finish] at happened
        split at happened
        · split at happened
          · rename_i h; rw [onWire] at h; cases h.1
          · cases happened
        · cases happened
    | cancels =>
        simp only [happens, finish] at happened
        split at happened
        · rename_i h; rw [onWire] at h; cases h.1
        · cases happened
    | forgets =>
        simp only [happens, VenueOrder.forget] at happened
        split at happened
        · rename_i h
          rw [VenueOrder.ended, onWire] at h
          rcases h with h | h <;> cases h
        · cases happened
  · have was := accepted_before (happens_grows happened) onWire after
    rw [before] at was
    cases was

/-- An order in its venue's hands grows under a settled track. -/
theorem Settled.grown {track : Track} {grown : VenueOrder} (settled : Settled strict track)
    (grows : Grows track.venue grown)
    (lands : track.venue.accepted = false → grown.accepted = true →
      track.venue.stage = .onWire ∧ track.saga.state ≠ .failed ∧
      ∀ report, ExecutionReport.status report ∈ track.queue → report.status ≠ .failed) :
    Settled strict { track with venue := grown } := by
  -- An order still on the wire has a saga that is open, or has failed.
  have open_ : ∀ order, Along strict track.venue order → order.state ≠ .failed →
      track.venue.accepted = false → track.venue.stage = .onWire → order.isTerminal = false := by
    intro order along alive not onWire
    unfold Order.isTerminal
    rcases along.1.early not with state | state | state | ⟨_, refused⟩
    · rw [state]; rfl
    · rw [state]; rfl
    · exact absurd state alive
    · rw [onWire] at refused; cases refused
  refine ⟨?_, ?_, settled.lags, fun cycle => Look.Sound.grown (settled.looks cycle) grows, ?_,
    fun member => ?_,
    settled.boot, settled.running, settled.fault⟩
  · by_cases landing : track.venue.accepted = false ∧ grown.accepted = true
    · obtain ⟨onWire, alive, queued⟩ := lands landing.1 landing.2
      have kept := Ahead.carry settled.ahead (fun order : Order => order.state ≠ .failed)
        alive (by
          intro report member s now next _ alive absorbed
          rcases absorb_ok absorbed with ⟨rfl, _⟩ | moved
          · exact alive
          · have did := moved.did
            cases report with
            | status report => rw [did.2.2.2.2.1]; exact queued report member
            | fill report => rw [did.2.2.2.1]; split <;> decide
            | refused cloid symbol => exact did.elim)
      refine Ahead.mono kept ?_ fun _ _ h => h.1
      rintro order ⟨along, alive⟩
      exact ⟨along.1.grown grows fun not _ => open_ order along alive not onWire, along.2⟩
    · refine Ahead.mono settled.ahead ?_ fun _ _ h => h
      intro order along
      refine ⟨along.1.grown grows fun not accepted => ?_, along.2⟩
      exact absurd ⟨not, accepted⟩ landing
  · refine ⟨settled.row.1.grown grows fun not accepted => ?_, settled.row.2⟩
    obtain ⟨onWire, alive, _⟩ := lands not accepted
    refine open_ track.row settled.row ?_ not onWire
    rcases settled.lags with same | pending
    · rw [same]; exact alive
    · rw [pending]; decide
  · have placed := settled.placement
    cases is : track.placement with
    | filling oid totalSz published retries =>
        rw [is] at placed
        exact (grows.ended placed).1
    | _ => trivial
  · have cancelled := settled.verdicts member
    have final := grows.final (by rw [cancelled]; decide) (by rw [cancelled]; decide)
    show grown.stage = .cancelled
    rw [final.1, cancelled]

theorem Settled.venueStep {track after : Track} {event : VenueEvent}
    (settled : Settled strict track) (sound : Sound config track (.venue event))
    (stepped : track.venueStep event = some after) : Settled strict after := by
  have moved : ∀ {grown}, track.venue.happens event = some grown →
      Settled strict { track with venue := grown } := by
    intro grown happened
    refine settled.grown (happens_grows happened) fun not accepted => ?_
    obtain ⟨⟨oid, timestampMs, rfl⟩, onWire⟩ := happens_accepts happened not accepted
    exact ⟨onWire, sound.1, sound.2⟩
  unfold Track.venueStep at stepped
  split at stepped
  · split at stepped
    · cases stepped
    · cases happened : track.venue.happens _ with
      | none => rw [happened] at stepped; cases stepped
      | some grown => rw [happened] at stepped; cases stepped; exact moved happened
  · cases happened : track.venue.happens _ with
    | none => rw [happened] at stepped; cases stepped
    | some grown => rw [happened] at stepped; cases stepped; exact moved happened

/-! ## Publishing on a track -/

/-- A status that is a fact, and no fault where that is asked, leaves a track
settled. -/
theorem Settled.publishStatus {track : Track} {report : OrderStatusReport}
    (settled : Settled strict track)
    (fact : ∀ order, Along strict track.venue order →
      Landed strict track.placement track.looks order → Fact track.venue order (.status report))
    (takes : strict → ∀ order, Along strict track.venue order →
      Landed strict track.placement track.looks order → Takes order (.status report)) :
    Settled strict (track.publish [.status report]) :=
  ⟨settled.ahead.publish fact takes fun _ _ _ _ landed absorbed => landed.absorb_status absorbed,
    settled.row, settled.lags, settled.looks, settled.placement, settled.verdicts, settled.boot,
    settled.running, settled.fault⟩

theorem Landed.back {placement : Placement} {looks : Cycle → Look} {order : Order}
    (landed : Landed strict placement looks order) : Landed strict .back looks order :=
  ⟨trivial, landed.2.1, fun is => ⟨trivial, (landed.2.2 is).2⟩⟩

/-- A placement that returns makes the saga as it is durable. -/
theorem Settled.returned {track : Track} (settled : Settled strict track) (nowNs : Nanos) :
    Settled strict (track.returned nowNs) :=
  ⟨settled.ahead.mono fun _ _ landed => landed.back, settled.ahead.here, Or.inl rfl,
    settled.looks, trivial, settled.verdicts,
    fun booting => ⟨(settled.boot booting).1, (settled.boot booting).2.1, rfl⟩,
    settled.running, settled.fault⟩

/-! ## The placement call -/

/-- A placement that is out is past `PENDING` where the queue lands. -/
theorem Landed.out {looks : Cycle → Look} {order : Order}
    (landed : Landed strict .out looks order) (is : strict) : order.state ≠ .pending :=
  (landed.2.2 is).1

theorem Settled.noPrice {track : Track} {venue : VenueOrder} {nowNs : Nanos}
    (settled : Settled strict track) (refused : track.venue.refuse false = some venue) :
    Settled strict (({ track with venue := venue }.publish
      [track.status .failed none (some "no market tick cached") nowNs]).returned nowNs) := by
  have happened : track.venue.happens (.refuses false) = some venue := refused
  have not : venue.accepted = false := by
    simp only [refuse] at refused
    split at refused
    · cases refused; rfl
    · cases refused
  have grown : Settled strict { track with venue := venue } := by
    refine settled.grown (happens_grows happened) fun _ accepted => ?_
    rw [not] at accepted
    cases accepted
  refine Settled.returned (Settled.publishStatus grown ?_ ?_) nowNs
  · intro order _ _
    exact ⟨not, fun some_ => by cases some_⟩
  · intro _ order along _
    exact takes_refusal along.1 not (Or.inl rfl)

/-- The ack of a placement that is out, published in order. -/
theorem Settled.ack {track : Track} {placement : Placement} {nowNs : Nanos}
    (settled : Settled strict track) (out : track.placement = .out)
    (accepted : track.venue.accepted = true) (order : strict → track.AckInOrder)
    (due : ∀ order, placement.Due order)
    (ready : ∀ order, order.state ≠ .pending → Acked order → placement.Ready order) :
    Queued strict track.venue (Landed strict placement track.looks) track.saga
      (track.queue ++ [track.status .live (some track.venue.oid) none nowNs]) := by
  have lawful : ∀ order, Fact track.venue order
      (track.status .live (some track.venue.oid) none nowNs) := by
    intro order
    refine ⟨accepted, fun _ onWire => ?_⟩
    rw [VenueOrder.accepted, onWire] at accepted
    cases accepted
  have inOrder : Queued strict track.venue (fun order =>
      Landed strict .out track.looks order ∧ (strict → Orderly order)) track.saga track.queue := by
    have ahead := settled.ahead
    rw [out] at ahead
    by_cases is : strict
    · exact (Queued.orderly is ahead (order is)).mono fun _ _ h => ⟨h.1, fun _ => h.2⟩
    · exact ahead.mono fun _ _ h => ⟨h, fun yes => absurd yes is⟩
  refine inOrder.publish (fun order _ _ => lawful order) ?_ ?_
  · exact fun is order along landed =>
      takes_live (along.2 is) rfl (landed.1.out is) (landed.2 is)
  · intro order after now _ landed absorbed
    have later := landed.1.absorb_status absorbed
    exact ⟨due after, later.2.1, fun is => ⟨ready after
      (past_pending absorbed (landed.1.out is)) (acked_of_live rfl absorbed), (later.2.2 is).2⟩⟩

theorem Settled.acked {track : Track} {nowNs : Nanos} (settled : Settled strict track)
    (out : track.placement = .out) (accepted : track.venue.accepted = true)
    (order : strict → track.AckInOrder) :
    Settled strict ((track.publish
      [track.status .live (some track.venue.oid) none nowNs]).returned nowNs) :=
  ⟨settled.ack out accepted order (fun _ => trivial) fun _ _ _ => trivial, settled.ahead.here,
    Or.inl rfl, settled.looks, trivial, settled.verdicts,
    fun booting => ⟨(settled.boot booting).1, (settled.boot booting).2.1, rfl⟩, settled.running,
    settled.fault⟩

theorem Settled.filling {track : Track} {nowNs : Nanos} (settled : Settled strict track)
    (out : track.placement = .out) (ended : track.venue.ended = true)
    (order : strict → track.AckInOrder) :
    Settled strict { track.publish [track.status .live (some track.venue.oid) none nowNs] with
      placement := .filling track.venue.oid track.venue.total [] Track.shortFillsRetries } := by
  refine ⟨settled.ack out (accepted_of_ended ended) order (fun _ fill member => by cases member)
    fun _ past acked => ⟨past, acked⟩, settled.row, settled.lags, settled.looks, ended,
    settled.verdicts, fun booting => ?_, settled.running, settled.fault⟩
  have back := (settled.boot booting).2.2
  rw [out] at back
  cases back

theorem Settled.rejected {track : Track} {nowNs : Nanos} {reason : String}
    (settled : Settled strict track) (out : track.placement = .out)
    (refused : track.venue.stage = .refused) :
    Settled strict ((track.publish
      [track.status .rejected none (some reason) nowNs]).returned nowNs) := by
  have not : track.venue.accepted = false := by rw [VenueOrder.accepted, refused]; rfl
  refine Settled.returned (settled.publishStatus ?_ ?_) nowNs
  · intro order _ _
    exact ⟨Or.inl refused, fun some_ => by cases some_⟩
  · intro is order along landed
    rw [out] at landed
    exact takes_refusal along.1 not (Or.inr ⟨rfl, landed.out is⟩)

theorem Settled.nothing {track : Track} {nowNs : Nanos} (settled : Settled strict track)
    (refused : Bool) :
    Settled strict ((track.publish
      (if refused then [.refused track.saga.cloid track.saga.symbol] else [])).returned nowNs) := by
  refine Settled.returned ?_ nowNs
  cases refused with
  | false =>
      have same : track.publish [] = track := by
        unfold Track.publish
        rw [List.append_nil]
      rw [show (if false = true then [ExecutionReport.refused track.saga.cloid track.saga.symbol]
        else []) = [] from rfl, same]
      exact settled
  | true =>
      refine ⟨settled.ahead.publish (fun _ _ _ => trivial) (fun _ _ _ _ => trivial) ?_, settled.row,
        settled.lags, settled.looks, settled.placement, settled.verdicts, settled.boot,
        settled.running, settled.fault⟩
      intro order after now _ landed absorbed
      cases absorbed
      exact landed

/-- **A fills read of a filled placement** publishes what is new of it, and ends
a shrunk order behind all of it. -/
theorem Settled.readFills {track : Track} {nowNs : Nanos} {oid : String} {totalSz : Decimal}
    {published : List FillReport} {retries : ℕ} (settled : Settled strict track)
    (filling : track.placement = .filling oid totalSz published retries) :
    Settled strict (track.readFills oid totalSz published retries nowNs) := by
  have ended : track.venue.ended = true := by
    have sound := settled.placement
    rw [filling] at sound
    exact sound
  have booting : track.cleared = false → False := by
    intro not
    have back := (settled.boot not).2.2
    rw [filling] at back
    cases back
  let fresh := track.venue.fills.filter fun fill =>
    fill.tradeId ∉ published.map FillReport.tradeId
  have read := Queued.publishFills fresh settled.ahead
    (fun fill member => (List.mem_filter.mp member).1)
    (fun is order landed => by
      have ready := (landed.2.2 is).1
      rw [filling] at ready
      exact ready.1)
    (fun order after fill now landed absorbed => by
      refine landed.absorb absorbed fun is _ _ => Or.inl ?_
      have ready := (landed.2.2 is).1
      rw [filling] at ready
      exact acked_mono absorbed ready.2)
  -- Everything the venue holds was published in this read or an earlier one.
  have all : ∀ order, (∀ fill ∈ published ++ fresh, Booked order fill.tradeId) →
      Whole track.venue order := by
    intro order booked fill member
    by_cases old : fill.tradeId ∈ published.map FillReport.tradeId
    · obtain ⟨earlier, there, same⟩ := List.mem_map.mp old
      rw [← same]
      exact booked earlier (List.mem_append_left _ there)
    · exact booked fill (List.mem_append_right _ (List.mem_filter.mpr ⟨member, by simpa using old⟩))
  have due : ∀ order, Landed strict track.placement track.looks order →
      (∀ fill ∈ fresh, Booked order fill.tradeId) →
      ∀ fill ∈ published ++ fresh, Booked order fill.tradeId := by
    intro order landed new fill member
    have old := landed.1
    rw [filling] at old
    rcases List.mem_append.mp member with earlier | now
    · exact old fill earlier
    · exact new fill now
  have onward : Settled strict { track.publish (fresh.map .fill) with
      placement := .filling oid totalSz (published ++ fresh) (retries - 1) } := by
    refine ⟨read.mono fun order _ landed => ?_, settled.row, settled.lags, settled.looks, ended,
      settled.verdicts, fun not => (booting not).elim, settled.running, settled.fault⟩
    have ready := landed.1.2.2
    rw [filling] at ready
    exact ⟨due order landed.1 landed.2, landed.1.2.1, ready⟩
  have returned : Settled strict ((track.publish (fresh.map .fill)).returned nowNs) :=
    onward.returned nowNs
  unfold Track.readFills
  dsimp only
  split
  · split
    · have cancelled : Settled strict
          ({ track.publish (fresh.map .fill) with
            placement := .filling oid totalSz (published ++ fresh) (retries - 1) }.publish
            [.status (endShrunk track.saga.cloid track.saga.symbol none nowNs)]) := by
        refine onward.publishStatus ?_ ?_
        · intro order _ landed
          exact ⟨⟨ended, all order landed.1⟩, fun some_ => by cases some_⟩
        · intro is order _ landed
          exact takes_cancelled rfl ((landed.2.2 is).1).1
      have back := cancelled.returned nowNs
      exact ⟨back.ahead, back.row, back.lags, back.looks, back.placement, back.verdicts, back.boot,
        back.running, back.fault⟩
    · exact returned
  · exact onward

theorem Settled.placementStep {track after : Track} {event : Track.PlacementEvent} {nowNs : Nanos}
    (settled : Settled strict track) (clean : strict → Clean config track (.placement event nowNs))
    (stepped : track.placementStep event nowNs = some after) :
    Settled strict after := by
  unfold Track.placementStep at stepped
  split at stepped
  · cases refused : track.venue.refuse false with
    | none => rw [refused] at stepped; cases stepped
    | some venue => rw [refused] at stepped; cases stepped; exact settled.noPrice refused
  · rename_i out
    split at stepped
    · rename_i accepted; cases stepped; exact settled.acked out accepted clean
    · cases stepped
  · rename_i out
    split at stepped
    · rename_i ended; cases stepped; exact settled.filling out ended clean
    · cases stepped
  · rename_i out
    split at stepped
    · rename_i refused; cases stepped; exact settled.rejected out refused
    · cases stepped
  · cases stepped
    exact settled.nothing _
  · rename_i filling
    cases stepped
    exact settled.readFills filling
  · cases stepped
    exact settled.returned nowNs
  · cases stepped

/-! ## Cancels -/

section Marker

variable {venue : VenueOrder} {order flagged : Order}

theorem SameSaga.booked (same : Order.SameSaga order flagged) (tradeId : String) :
    Booked flagged tradeId ↔ Booked order tradeId := by
  unfold Booked
  rw [same.cloid, same.appliedEventIds]

theorem SameSaga.reflects (same : Order.SameSaga order flagged) (state : OrderState) :
    Reflects flagged state ↔ Reflects order state := by
  unfold Reflects
  rw [same.cloid, same.appliedEventIds]

theorem SameSaga.isTerminal (same : Order.SameSaga order flagged) :
    flagged.isTerminal = order.isTerminal := by
  unfold Order.isTerminal
  rw [same.state]

/-- The cancel marker changes nothing the venue could contradict. -/
theorem Along.marked (along : Along strict venue order) (same : Order.SameSaga order flagged) :
    Along strict venue flagged := by
  have booked := SameSaga.booked same
  refine ⟨⟨same.quantity.trans along.1.asked, ?_, ?_, ?_, ?_, ?_⟩, fun is => ⟨?_, ?_, ?_, ?_, ?_, ?_⟩⟩
  · exact fun tradeId there => along.1.known tradeId ((booked tradeId).mp there)
  · rw [same.cumQty, along.1.cum]
    exact bookedTotal_congr fun fill _ => (booked fill.tradeId).symm
  · rw [same.venueOid]; exact along.1.oid
  · rw [same.state]; exact along.1.early
  · rw [SameSaga.isTerminal same]
    intro terminal accepted
    obtain ⟨ended, whole⟩ := along.1.ended terminal accepted
    exact ⟨ended, fun fill member => (booked _).mpr (whole fill member)⟩
  · rw [same.state, SameSaga.reflects same]; exact (along.2 is).fresh
  · rw [same.state, SameSaga.isTerminal same, SameSaga.reflects same]; exact (along.2 is).sent
  · rw [same.state, SameSaga.reflects same]; exact (along.2 is).acked
  · rw [same.state]
    intro part
    obtain ⟨tradeId, there⟩ := (along.2 is).part part
    exact ⟨tradeId, (booked tradeId).mpr there⟩
  · rw [SameSaga.isTerminal same, same.cumQty, same.quantity]; exact (along.2 is).short
  · simp only [SameSaga.isTerminal same, SameSaga.reflects same]; exact (along.2 is).finished

theorem Orderly.marked (same : Order.SameSaga order flagged) :
    (Acked order → Acked flagged) ∧ (Orderly order → Orderly flagged) := by
  have acked : Acked order → Acked flagged := by
    unfold Acked
    rw [SameSaga.isTerminal same, SameSaga.reflects same]
    exact id
  refine ⟨acked, fun orderly => orderly.imp acked fun none_ tradeId there => ?_⟩
  exact none_ tradeId ((SameSaga.booked same tradeId).mp there)

theorem Landed.marked {placement : Placement} {looks : Cycle → Look}
    (landed : Landed strict placement looks order) (same : Order.SameSaga order flagged) :
    Landed strict placement looks flagged := by
  have booked := SameSaga.booked same
  obtain ⟨acked, orderly⟩ := Orderly.marked same
  refine ⟨?_, fun cycle => ?_, fun is => ⟨?_, fun cycle => ?_, fun active => ?_⟩⟩
  · have due := landed.1
    cases placement with
    | filling oid totalSz published retries =>
        exact fun fill member => (booked _).mpr (due fill member)
    | _ => trivial
  · have due := landed.2.1 cycle
    cases look : looks cycle with
    | replaying ref view rest =>
        rw [look] at due
        exact fun fill member => (due fill member).imp_right (booked _).mpr
    | _ => trivial
  · have ready := (landed.2.2 is).1
    cases placement with
    | out =>
        show flagged.state ≠ .pending
        rw [same.state]
        exact ready
    | filling oid totalSz published retries => exact ⟨same.state ▸ ready.1, acked ready.2⟩
    | back => trivial
  · have ready := (landed.2.2 is).2.1 cycle
    cases look : looks cycle with
    | holding ref view => rw [look] at ready; exact fun bare => orderly (ready bare)
    | replaying ref view rest =>
        rw [look] at ready
        exact ⟨same.state ▸ ready.1, fun bare => orderly (ready.2 bare)⟩
    | _ => trivial
  · rcases (landed.2.2 is).2.2 active with is | ⟨tradeId, there⟩
    · exact Or.inl (acked is)
    · exact Or.inr ⟨tradeId, (booked tradeId).mpr there⟩

end Marker

/-- A cancel verb marks the saga under everything queued for it. -/
theorem Settled.marked {track : Track} {order : Order} (settled : Settled strict track)
    (same : Order.SameSaga track.saga order) (nowNs : Nanos) :
    Settled strict (track.marked order nowNs) := by
  have ahead : Queued strict track.venue (Landed strict track.placement track.looks) order
      track.queue :=
    Ahead.alike settled.ahead same absorb_sameSaga (fun _ _ same along => along.marked same)
      fun _ _ same landed => landed.marked same
  exact ⟨ahead, ahead.here, Or.inl rfl, settled.looks, settled.placement, settled.verdicts,
    settled.boot, settled.running, settled.fault⟩

/-- A cancel's success, behind every fill. -/
theorem Settled.cancelled {track : Track} {rest : List CancelVerdict} {nowNs : Nanos}
    (settled : Settled strict track) (next : track.verdicts = .cancelled :: rest)
    (known : track.AllKnown) (sent : strict → track.SentKnown) :
    Settled strict ({ track with verdicts := rest }.publish
      [track.status .cancelled none none nowNs]) := by
  have stage := settled.verdicts (by rw [next]; exact List.mem_cons_self)
  have ended : track.venue.ended = true := by rw [VenueOrder.ended, stage]; rfl
  have whole := Queued.whole settled.ahead known
  have ahead : Queued strict track.venue (Landed strict track.placement track.looks) track.saga
      (track.queue ++ [track.status .cancelled none none nowNs]) := by
    by_cases is : strict
    · refine (whole.sent is (sent is)).publish ?_ ?_ ?_
      · exact fun order _ landed => ⟨⟨ended, landed.1.2⟩, fun some_ => by cases some_⟩
      · exact fun _ order _ landed => takes_cancelled rfl landed.2
      · exact fun order after now _ landed absorbed => landed.1.1.absorb_status absorbed
    · refine whole.publish ?_ (fun yes => absurd yes is) ?_
      · exact fun order _ landed => ⟨⟨ended, landed.2⟩, fun some_ => by cases some_⟩
      · exact fun order after now _ landed absorbed => landed.1.absorb_status absorbed
  exact ⟨ahead, settled.row, settled.lags, settled.looks, settled.placement,
    fun member => settled.verdicts (by rw [next]; exact List.mem_cons_of_mem _ member),
    settled.boot, settled.running, settled.fault⟩

/-- Fewer answers on their way. -/
theorem Settled.dropVerdict {track : Track} {verdict : CancelVerdict} {rest : List CancelVerdict}
    (settled : Settled strict track) (next : track.verdicts = verdict :: rest) :
    Settled strict { track with verdicts := rest } :=
  ⟨settled.ahead, settled.row, settled.lags, settled.looks, settled.placement,
    fun member => settled.verdicts (by rw [next]; exact List.mem_cons_of_mem _ member),
    settled.boot, settled.running, settled.fault⟩

/-- The venue adjudicates a cancel. -/
theorem Settled.adjudicated {track : Track} (settled : Settled strict track) (out : ℕ) :
    (∀ venue, track.venue.finish .cancelled = some venue → Settled strict { track with
      venue := venue
      cancelsOut := out
      verdicts := track.verdicts ++ [.cancelled] }) ∧
    Settled strict { track with
      cancelsOut := out
      verdicts := track.verdicts ++ [.alreadyGone] } := by
  refine ⟨fun venue finished => ?_, ?_⟩
  · have happened : track.venue.happens .cancels = some venue := finished
    have grown : Settled strict { track with venue := venue } :=
      settled.grown (happens_grows happened) fun not accepted => by
        obtain ⟨⟨_, _, clash⟩, _⟩ := happens_accepts happened not accepted
        cases clash
    have stage : venue.stage = .cancelled := by
      simp only [finish] at finished
      split at finished
      · cases finished; rfl
      · cases finished
    exact ⟨grown.ahead, grown.row, grown.lags, grown.looks, grown.placement, fun _ => stage,
      grown.boot, grown.running, grown.fault⟩
  · refine ⟨settled.ahead, settled.row, settled.lags, settled.looks, settled.placement,
      fun member => settled.verdicts ?_, settled.boot, settled.running, settled.fault⟩
    rcases List.mem_append.mp member with there | new
    · exact there
    · rw [List.mem_singleton] at new; cases new

theorem Settled.cancelStep {track after : Track} {event : Track.CancelEvent} {nowNs : Nanos}
    (settled : Settled strict track) (sound : Sound config track (.cancel event nowNs))
    (clean : strict → Clean config track (.cancel event nowNs))
    (stepped : track.cancelStep event nowNs = some after) : Settled strict after := by
  cases event with
  | requests signalId =>
      simp only [Track.cancelStep, Option.map_eq_some_iff] at stepped
      obtain ⟨order, requested, rfl⟩ := stepped
      exact settled.marked (Order.requestCancel_sameSaga requested) nowNs
  | requestsAll signalId =>
      simp only [Track.cancelStep, Option.map_eq_some_iff] at stepped
      obtain ⟨order, requested, rfl⟩ := stepped
      exact settled.marked (Order.requestCancelAll_sameSaga requested) nowNs
  | operatorCancels =>
      cases stepped
      exact settled.marked (Order.markOperatorCancel_sameSaga track.saga nowNs) nowNs
  | adjudicates =>
      simp only [Track.cancelStep] at stepped
      split at stepped
      · cases stepped
      · obtain ⟨cancels, gone⟩ := settled.adjudicated (track.cancelsOut - 1)
        cases finished : track.venue.finish .cancelled with
        | none => rw [finished] at stepped; cases stepped; exact gone
        | some venue => rw [finished] at stepped; cases stepped; exact cancels venue finished
  | unsent =>
      simp only [Track.cancelStep] at stepped
      split at stepped
      · cases stepped
      · cases stepped
        exact ⟨settled.ahead, settled.row, settled.lags, settled.looks, settled.placement,
          settled.verdicts, settled.boot, settled.running, settled.fault⟩
  | answers =>
      simp only [Track.cancelStep] at stepped
      split at stepped
      · cases stepped
      · rename_i rest next
        have succeeds : track.CancelSucceeds := by unfold Track.CancelSucceeds; rw [next]; rfl
        cases stepped
        exact settled.cancelled next (sound succeeds) fun is => clean is succeeds
      · rename_i rest next
        cases stepped
        exact settled.dropVerdict next
  | unanswered =>
      simp only [Track.cancelStep] at stepped
      split at stepped
      · cases stepped
      · rename_i rest next
        cases stepped
        exact settled.dropVerdict next

/-! ## The reconcile cycles -/

section Looks

variable {track : Track} {cycle : Cycle} {look : Look}

/-- Another look in one cycle, with nothing published: what is due and ready of
the new look is all there is to show. -/
theorem Landed.setLook {placement : Placement} {looks : Cycle → Look} {order : Order}
    (landed : Landed strict placement looks order) (due : look.Due order)
    (ready : strict → look.Ready order)
    (watched : strict → cycle = .openOrders → looks cycle = .idle → look ≠ .idle →
      Acked order ∨ ∃ tradeId, Booked order tradeId) :
    Landed strict placement (Function.update looks cycle look) order := by
  refine ⟨landed.1, fun c => ?_, fun is => ⟨(landed.2.2 is).1, fun c => ?_, fun active => ?_⟩⟩
  · rw [Function.update_apply]
    split
    · exact due
    · exact landed.2.1 c
  · rw [Function.update_apply]
    split
    · exact ready is
    · exact (landed.2.2 is).2.1 c
  · rw [Function.update_apply] at active
    split at active
    · rename_i here
      by_cases was : looks .openOrders = .idle
      · exact watched is here.symm (here ▸ was) active
      · exact (landed.2.2 is).2.2 was
    · exact (landed.2.2 is).2.2 active

/-- A cycle other than the startup pass looks only past the barrier. -/
theorem Settled.phase (settled : Settled strict track) (active : track.looks cycle ≠ .idle) :
    (cycle = .startup → track.cleared = false) ∧ (cycle ≠ .startup → track.cleared = true) := by
  constructor
  · rintro rfl
    by_contra cleared
    exact active (settled.running (by simpa using cleared))
  · intro other
    by_contra booting
    have idle := settled.boot (by simpa using booting)
    cases cycle with
    | startup => exact other rfl
    | inflight => exact active idle.1
    | openOrders => exact active idle.2.1

/-- Set one look of a settled track. -/
theorem Settled.setLook {queue : List ExecutionReport} (settled : Settled strict track)
    (phase : (cycle = .startup → track.cleared = false) ∧
      (cycle ≠ .startup → track.cleared = true))
    (sound : look.Sound track.venue)
    (ahead : Queued strict track.venue
      (Landed strict track.placement (Function.update track.looks cycle look)) track.saga queue) :
    Settled strict ({ track with queue := queue }.setLook cycle look) := by
  refine ⟨ahead, settled.row, settled.lags, fun c => ?_, settled.placement, settled.verdicts,
    fun booting => ?_, fun cleared => ?_, settled.fault⟩
  · show (Function.update track.looks cycle look c).Sound track.venue
    rw [Function.update_apply]
    split
    · exact sound
    · exact settled.looks c
  · have startup : cycle = .startup := by
      by_contra other
      have cleared := phase.2 other
      have not : track.cleared = false := booting
      rw [not] at cleared
      cases cleared
    subst startup
    exact settled.boot booting
  · have other : Cycle.startup ≠ cycle := by
      intro is
      have not := phase.1 is.symm
      have yes : track.cleared = true := cleared
      rw [not] at yes
      cases yes
    show Function.update track.looks cycle look .startup = .idle
    rw [Function.update_of_ne other]
    exact settled.running cleared

/-- Set one look, with nothing published. -/
theorem Settled.looked (settled : Settled strict track) (active : track.looks cycle ≠ .idle)
    (sound : look.Sound track.venue)
    (due : ∀ order, Along strict track.venue order →
      Landed strict track.placement track.looks order →
      look.Due order ∧ (strict → look.Ready order)) :
    Settled strict (track.setLook cycle look) :=
  settled.setLook (settled.phase active) sound (settled.ahead.mono fun order along landed =>
    landed.setLook (due order along landed).1 (due order along landed).2
      fun _ _ idle => absurd idle active)

/-- The bookkeeping of the adapter and of the reconciler is no part of what
settles. -/
theorem Settled.aside (settled : Settled strict track) (wait : Option (Decimal × Nanos))
    (absence : Reconciler.Absence) :
    Settled strict { track with shrunkFills := wait, absence := absence } :=
  ⟨settled.ahead, settled.row, settled.lags, settled.looks, settled.placement, settled.verdicts,
    settled.boot, settled.running, settled.fault⟩

/-- What a look of this cycle is ready for where the queue lands. -/
theorem Landed.atLook {placement : Placement} {looks : Cycle → Look} {order : Order}
    (landed : Landed strict placement looks order) (at_ : looks cycle = look) :
    look.Due order ∧ (strict → look.Ready order) := by
  rw [← at_]
  exact ⟨landed.2.1 cycle, fun is => (landed.2.2 is).2.1 cycle⟩

/-- A pass begins on a saga it watches. -/
theorem Settled.asked (settled : Settled strict track)
    (opens : ((cycle == .startup) != track.cleared) = true)
    (watches : cycle.watches track.saga.state = true) :
    Settled strict (track.setLook cycle (.asked (OrderRef.of track.saga))) := by
  have phase : (cycle = .startup → track.cleared = false) ∧
      (cycle ≠ .startup → track.cleared = true) := by
    cases cycle <;> cases cleared : track.cleared <;> rw [cleared] at opens <;>
      first
      | exact absurd opens (by decide)
      | exact ⟨fun _ => rfl, fun not => absurd rfl not⟩
      | exact ⟨fun is => (by cases is), fun _ => rfl⟩
  have here := settled.ahead.here
  refine settled.setLook phase (fun some_ => here.1.oid some_) ?_
  by_cases is : strict ∧ cycle = .openOrders
  · obtain ⟨yes, rfl⟩ := is
    -- A working saga's ack, or one of its fills, is booked already.
    have start : Acked track.saga ∨ ∃ tradeId, Booked track.saga tradeId := by
      have working : track.saga.state.isWorking = true := watches
      have regular := here.2 yes
      cases state : track.saga.state with
      | live => exact Or.inl (Or.inl (regular.acked state))
      | partiallyFilled => exact Or.inr (regular.part state)
      | _ => rw [state] at working; cases working
    have kept := Ahead.carry settled.ahead
      (fun order => Acked order ∨ ∃ tradeId, Booked order tradeId) start (by
        intro i _ s now next _ seen absorbed
        rcases seen with acked | ⟨tradeId, booked⟩
        · exact Or.inl (acked_mono absorbed acked)
        · exact Or.inr ⟨tradeId, booked_mono absorbed booked⟩)
    refine Ahead.mono kept (fun _ h => h.1) fun order _ landed => ?_
    exact landed.1.setLook trivial (fun _ => trivial) fun _ _ _ _ => landed.2
  · refine settled.ahead.mono fun order _ landed => ?_
    exact landed.setLook trivial (fun _ => trivial) fun yes on => absurd ⟨yes, on⟩ is

/-- The record the venue answers with is of the order as it is. -/
theorem recorded (venue : VenueOrder) {record : OrderRecord} (is : venue.record = some record) :
    Recorded venue record := by
  unfold VenueOrder.record at is
  split at is
  · cases stage : venue.stage <;> rw [stage] at is <;> simp only [Stage.state, Option.map_none,
      Option.map_some] at is <;> cases is <;> unfold Recorded <;> rw [stage] <;>
      refine ⟨by decide, ?_⟩ <;> dsimp only [VenueOrder.accepted, VenueOrder.ended] <;>
      first
      | rfl
      | (rw [stage]; rfl)
  · cases is

/-- An accepted order with no record is one the venue dropped. -/
theorem ended_of_no_record {venue : VenueOrder} (is : venue.record = none)
    (accepted : venue.accepted = true) : venue.ended = true := by
  unfold VenueOrder.record at is
  unfold VenueOrder.accepted at accepted
  split at is
  · cases stage : venue.stage <;> rw [stage] at is accepted <;>
      first
      | exact absurd accepted (by decide)
      | cases is
  · rename_i unlisted
    rcases venue.dropped (by simpa using unlisted) with ended | refused
    · exact ended
    · rw [refused] at accepted; cases accepted

/-- A found record and the fills read behind it make a view of the order. -/
theorem seen_found (config : Config) {venue : VenueOrder} (ref : OrderRef) {record : OrderRecord}
    (is : Recorded venue record) (seen current : Option (Decimal × Nanos)) (nowNs : Nanos) :
    Seen venue ref (foundView config ref record seen current venue.fills nowNs).1 ∧
      (foundView config ref record seen current venue.fills nowNs).1.fills = venue.fills := by
  obtain ⟨sent, tells⟩ := is
  have plain : Seen venue ref
      { status := some
          (statusReport ref.cloid record.coin record.state (some record.oid) none nowNs)
        fills := venue.fills } := by
    refine ⟨fun _ member => member, fun report there => ?_, fun none_ => by cases none_⟩
    cases there
    refine ⟨fun _ => sent, ?_⟩
    dsimp only [statusReport]
    cases state : record.state <;> rw [state] at tells <;> dsimp only at tells ⊢
    case filled => exact ⟨tells, fun _ member => member⟩
    case cancelled => exact ⟨tells, fun _ member => member⟩
    all_goals exact tells
  have short : venue.ended = true → Seen venue ref
      { status := some (endShrunk ref.cloid record.coin (some record.oid) nowNs)
        fills := venue.fills } := by
    intro ended
    refine ⟨fun _ member => member, fun report there => ?_, fun none_ => by cases none_⟩
    cases there
    exact ⟨fun _ => sent, ended, fun _ member => member⟩
  simp only [foundView]
  split
  · rename_i filled
    rw [filled.1] at tells
    split
    · exact ⟨short tells, rfl⟩
    · exact ⟨plain, rfl⟩
  · exact ⟨plain, rfl⟩

/-- `fetch_order` returns a view of the order. -/
theorem Settled.fetched (settled : Settled strict track) {ref : OrderRef} {view : VenueOrderView}
    (active : track.looks cycle ≠ .idle) (named : Named track.venue ref)
    (seen : Seen track.venue ref view) (whole : BareLive view → track.venue.fills = []) :
    Settled strict (track.setLook cycle (.holding ref view)) := by
  refine settled.looked active ⟨named, seen⟩ fun order along _ => ⟨trivial, fun _ bare => ?_⟩
  refine Or.inr fun tradeId booked => ?_
  obtain ⟨fill, member, _⟩ := along.1.known tradeId booked
  rw [whole bare] at member
  cases member

/-- A pass opens: it gives up on an order that never landed, or it replays. -/
theorem Settled.opened (settled : Settled strict track) (config : Config) (nowNs : Nanos)
    {ref : OrderRef} {view : VenueOrderView} (here : track.looks cycle = .holding ref view)
    (gives : track.GivesUp config cycle nowNs → track.venue.accepted = false) :
    match (track.opensWith config cycle view nowNs).1 with
    | none => Settled strict (track.setLook cycle .idle)
    | some (.failed report) =>
        Settled strict ((track.publish [.status report]).setLook cycle .idle)
    | some (.replay bridge) =>
        Settled strict ((track.publish (bridge.toList.map .status)).setLook cycle
          (.replaying ref view view.fills)) := by
  have active : track.looks cycle ≠ .idle := by rw [here]; intro clash; cases clash
  have sound := settled.looks cycle
  rw [here] at sound
  cases opens : (track.opensWith config cycle view nowNs).1 with
  | none => exact settled.looked active trivial fun _ _ _ => ⟨trivial, fun _ => trivial⟩
  | some opening =>
      cases opening with
      | failed report =>
          have not := gives ⟨ref, view, report, here, opens⟩
          have failed : report = Reconciler.failedVerdict track.saga nowNs := by
            cases cycle with
            | inflight =>
                simp only [Track.opensWith] at opens
                exact (Reconciler.inflightOpening_failed (Prod.ext opens rfl)).2.2
            | startup =>
                simp only [Track.opensWith, Option.some.injEq] at opens
                exact (Reconciler.opening_failed opens).2.2.2
            | openOrders =>
                simp only [Track.opensWith, Option.some.injEq] at opens
                exact (Reconciler.opening_failed opens).2.2.2
          have published : Settled strict (track.publish [.status report]) := by
            refine settled.publishStatus ?_ ?_
            · intro order _ _
              rw [failed]
              exact ⟨not, fun some_ => by cases some_⟩
            · intro _ order along _
              rw [failed]
              exact takes_refusal along.1 not (Or.inl rfl)
          exact published.looked active trivial fun _ _ _ => ⟨trivial, fun _ => trivial⟩
      | replay bridge =>
          have bridged : bridge = if track.saga.state = .pending then
              some (Reconciler.submittedBridge track.saga nowNs) else none := by
            cases cycle with
            | inflight =>
                simp only [Track.opensWith] at opens
                exact Reconciler.inflightOpening_replay (Prod.ext opens rfl)
            | startup =>
                simp only [Track.opensWith, Option.some.injEq] at opens
                exact Reconciler.opening_replay opens
            | openOrders =>
                simp only [Track.opensWith, Option.some.injEq] at opens
                exact Reconciler.opening_replay opens
          have due : ∀ order, Landed strict track.placement track.looks order →
              order.state ≠ .pending ∨ ¬ strict →
              Landed strict track.placement
                (Function.update track.looks cycle (.replaying ref view view.fills)) order := by
            intro order landed past
            refine landed.setLook (fun fill member => Or.inl member) (fun is => ⟨?_, ?_⟩)
              fun _ _ idle => absurd idle active
            · exact past.resolve_right fun not => not is
            · exact (landed.atLook here).2 is
          have replays : Look.Sound track.venue (.replaying ref view view.fills) :=
            ⟨sound.1, sound.2, fun _ member => member⟩
          by_cases pending : track.saga.state = .pending
          · rw [bridged, if_pos pending]
            refine settled.setLook (settled.phase active) replays ?_
            refine settled.ahead.publish (fun _ _ _ => ⟨trivial, fun some_ => by cases some_⟩)
              (fun is order along _ => takes_submitted (along.2 is) rfl) ?_
            intro order after now along landed absorbed
            refine due after (landed.absorb_status absorbed) ?_
            by_cases is : strict
            · -- The bridge takes a pending saga out of `PENDING`.
              left
              by_cases was : order.state = .pending
              · rcases absorb_ok absorbed with ⟨rfl, idle⟩ | moved
                · rcases idle with finished | unmapped | seen
                  · unfold Order.isTerminal at finished; rw [was] at finished; cases finished
                  · cases unmapped
                  · exact absurd seen ((along.2 is).fresh was)
                · rw [moved.did.2.2.2.2.1]
                  show OrderState.submitted ≠ .pending
                  decide
              · exact past_pending absorbed was
            · exact Or.inr is
          · rw [bridged, if_neg pending]
            refine settled.setLook (settled.phase active) replays ?_
            rw [show (Option.toList (none : Option OrderStatusReport)).map ExecutionReport.status = []
              from rfl, List.append_nil]
            exact (Queued.past settled.ahead pending).mono fun order _ landed =>
              due order landed.1 (Or.inl landed.2)

/-- A pass replays one fill. -/
theorem Settled.replayed (settled : Settled strict track) {ref : OrderRef} {view : VenueOrderView}
    {fill : FillReport} {rest : List FillReport}
    (here : track.looks cycle = .replaying ref view (fill :: rest)) :
    Settled strict ((track.publish [Reconciler.replica fill]).setLook cycle
      (.replaying ref view rest)) := by
  have active : track.looks cycle ≠ .idle := by rw [here]; intro clash; cases clash
  have sound := settled.looks cycle
  rw [here] at sound
  obtain ⟨named, seen, within⟩ := sound
  have member := within fill List.mem_cons_self
  refine settled.setLook (settled.phase active)
    ⟨named, seen, fun other there => within other (List.mem_cons_of_mem _ there)⟩ ?_
  refine settled.ahead.publish (fun _ _ _ => ⟨fill, seen.real fill member, rfl, rfl⟩) ?_ ?_
  · intro is order along landed
    exact takes_fill along.1 ⟨fill, seen.real fill member, rfl, rfl⟩
      (((landed.atLook here).2 is).1)
  · intro order after now along landed absorbed
    have later : Landed strict track.placement track.looks after := by
      refine landed.absorb absorbed fun is orderly waiting => Or.inl ?_
      · obtain ⟨other, ref', view', holds, bare⟩ := waiting
        -- A bare `LIVE` is held by another cycle, and one of the two is the slow one.
        have differs : other ≠ cycle := by
          rintro rfl
          have same : view' = view := by
            rcases holds with held | ⟨rest', held⟩
            · rw [here] at held; cases held
            · rw [here] at held; cases held; rfl
          obtain ⟨_, _, _, none_⟩ := bare
          rw [same] at none_
          rw [none_] at member
          cases member
        have other_active : track.looks other ≠ .idle := by
          rcases holds with held | ⟨_, held⟩ <;> rw [held] <;> intro clash <;> cases clash
        have slow : track.looks .openOrders ≠ .idle := by
          have mine := settled.phase active
          have theirs := settled.phase other_active
          cases cycle <;> cases other <;>
            first
            | exact absurd rfl differs
            | exact active
            | exact other_active
            | (have yes := mine.1 rfl
               have no := theirs.2 (by decide)
               rw [yes] at no
               cases no)
            | (have yes := theirs.1 rfl
               have no := mine.2 (by decide)
               rw [yes] at no
               cases no)
        have known : Acked order := by
          rcases (landed.2.2 is).2.2 slow with acked | ⟨tradeId, booked⟩
          · exact acked
          · exact orderly.resolve_right fun none_ => none_ tradeId booked
        exact acked_mono absorbed known
    have due := (later.atLook here).1
    refine later.setLook ?_ (fun is => (later.atLook here).2 is) fun _ _ idle => absurd idle active
    intro other there
    rcases due other there with listed | booked
    · rcases List.mem_cons.mp listed with rfl | further
      · exact Or.inr ((booked_fill absorbed _).mpr (Or.inr rfl))
      · exact Or.inl further
    · exact Or.inr booked

/-- A pass closes: on the record's own status behind the fills it came with, or
on a ghost the venue dropped with every fill read. -/
theorem Settled.closed (settled : Settled strict track) (config : Config) (nowNs : Nanos)
    {ref : OrderRef} {view : VenueOrderView} (here : track.looks cycle = .replaying ref view [])
    (ghost : ∀ ref report, track.Ghosts config cycle nowNs ref report →
      ref.venueOid.isSome = true ∨ (track.venue.ended = true ∧ track.AllKnown))
    (rejects : strict → ∀ ref report, track.Ghosts config cycle nowNs ref report →
      report.status = .rejected →
        (∀ fill, ExecutionReport.fill fill ∉ track.queue) ∨ track.EndKnown) :
    Settled strict ((track.publish ((Reconciler.closing config.reconcile track.saga view
      track.lastEventNs track.absence nowNs).1.toList.map .status)).setLook cycle .idle) := by
  have active : track.looks cycle ≠ .idle := by rw [here]; intro clash; cases clash
  have sound := settled.looks cycle
  rw [here] at sound
  obtain ⟨named, seen, _⟩ := sound
  have phase := settled.phase active
  have idle : ∀ order, Landed strict track.placement track.looks order →
      Landed strict track.placement (Function.update track.looks cycle .idle) order :=
    fun order landed => landed.setLook trivial (fun _ => trivial) fun _ _ was => absurd was active
  -- Everything read is met by the time this is handled.
  have met : ∀ order, Landed strict track.placement track.looks order →
      (∀ fill ∈ track.venue.fills, fill ∈ view.fills) → Whole track.venue order := by
    intro order landed all fill member
    exact ((landed.atLook here).1 fill (all fill member)).resolve_left fun none_ => by cases none_
  have past : strict → ∀ order, Landed strict track.placement track.looks order →
      order.state ≠ .pending := fun is order landed => ((landed.atLook here).2 is).1
  cases closes : Reconciler.closing config.reconcile track.saga view track.lastEventNs
      track.absence nowNs with
  | mk report absence =>
      cases report with
      | none =>
          refine settled.setLook phase trivial ?_
          rw [show (Option.toList (none : Option OrderStatusReport)).map ExecutionReport.status = []
            from rfl, List.append_nil]
          exact settled.ahead.mono fun order _ landed => idle order landed
      | some report =>
          refine settled.setLook phase trivial ?_
          rcases Reconciler.closing_some closes with ⟨gone, working, rfl⟩ | ⟨status, is, bare, as_⟩
          · have drawn : track.Ghosts config cycle nowNs ref
                (Reconciler.resolveGhost track.saga nowNs) :=
              ⟨view, here, gone, by rw [closes]⟩
            have accepted : track.venue.accepted = true := by
              by_contra not
              rcases settled.ahead.here.1.early (by simpa using not) with was | was | was | ⟨was, _⟩
                <;> rw [was] at working <;> cases working
            -- Read by the oid the fills are all; else nothing was left to lose.
            obtain ⟨ended, whole⟩ : track.venue.ended = true ∧
                Queued strict track.venue (fun order =>
                  Landed strict track.placement track.looks order ∧ Whole track.venue order)
                  track.saga track.queue := by
              rcases ghost _ _ drawn with byOid | ⟨ended, known⟩
              · obtain ⟨ended, all⟩ := seen.absent gone byOid accepted
                exact ⟨ended, settled.ahead.mono fun order _ landed =>
                  ⟨landed, met order landed all⟩⟩
              · exact ⟨ended, Queued.whole settled.ahead known⟩
            have lawful : ∀ order, Whole track.venue order → Fact track.venue order
                (.status (Reconciler.resolveGhost track.saga nowNs)) := by
              intro order whole
              refine ⟨?_, fun some_ => by cases some_⟩
              show Lawful track.venue order (Reconciler.ghostStatus track.saga).1
              unfold Reconciler.ghostStatus
              split
              · exact ⟨ended, whole⟩
              · split
                · exact ⟨ended, whole⟩
                · exact Or.inr ⟨ended, whole⟩
            by_cases rejected : strict ∧
                (Reconciler.resolveGhost track.saga nowNs).status = .rejected
            · -- A rejected ghost was `LIVE`, and nothing queued moves it on by a fill.
              have live : track.saga.state ≠ .partiallyFilled := by
                intro part
                have not := rejected.2
                unfold Reconciler.resolveGhost Reconciler.verdict Reconciler.ghostStatus at not
                rw [if_pos part] at not
                split at not <;> cases not
              have kept : Queued strict track.venue (fun order =>
                  (Landed strict track.placement track.looks order ∧ Whole track.venue order) ∧
                    (order.isTerminal = true ∨ order.state ≠ .partiallyFilled))
                  track.saga track.queue := by
                rcases rejects rejected.1 _ _ drawn rejected.2 with none_ | ends
                · refine (Ahead.carry whole
                    (fun order : Order => order.state ≠ .partiallyFilled) live ?_).mono
                    (fun _ h => h.1) fun _ _ h => ⟨h.1, Or.inr h.2⟩
                  intro i member s now next _ notPart absorbed
                  rcases absorb_ok absorbed with ⟨rfl, _⟩ | moved
                  · exact notPart
                  · have did := moved.did
                    cases i with
                    | status report =>
                        intro part
                        have maps := did.2.1
                        rw [did.2.2.2.2.1] at part
                        rw [part] at maps
                        cases maps
                    | fill report => exact absurd member (none_ report)
                    | refused cloid symbol => exact did.elim
                · exact (Queued.finished rejected.1 whole ends).mono fun _ _ h => ⟨h.1, Or.inl h.2⟩
              refine kept.publish (fun order _ landed => lawful order landed.1.2) ?_
                fun order after now _ landed absorbed => idle after (landed.1.1.absorb_status absorbed)
              intro strictly order _ landed
              have sent := past strictly order landed.1.1
              simp only [Takes]
              rw [rejected.2]
              rcases landed.2 with finished | notPart
              · exact Or.inl finished
              · cases state : order.state with
                | pending => exact absurd state sent
                | partiallyFilled => exact absurd state notPart
                | submitted => exact Or.inr (Or.inr (Or.inr rfl))
                | live => exact Or.inr (Or.inr (Or.inr rfl))
                | _ => exact Or.inl (by unfold Order.isTerminal; rw [state]; rfl)
            · refine whole.publish (fun order _ landed => lawful order landed.2) ?_
                fun order after now _ landed absorbed => idle after (landed.1.absorb_status absorbed)
              intro strictly order _ landed
              refine takes_cancelled ?_ (past strictly order landed.1)
              have not : (Reconciler.resolveGhost track.saga nowNs).status ≠ .rejected :=
                fun is => rejected ⟨strictly, is⟩
              unfold Reconciler.resolveGhost Reconciler.verdict Reconciler.ghostStatus at not ⊢
              by_cases asked : track.saga.cancelRequested = true
              · rw [if_pos asked]
              · rw [if_neg asked] at not ⊢
                by_cases part : track.saga.state = .partiallyFilled
                · rw [if_pos part]
                · rw [if_neg part] at not; exact absurd rfl not
          · obtain ⟨stamped, tells⟩ := seen.status status is
            have same : report.status = status.status := by rw [as_]
            have named_ : report.venueOid = status.venueOid := by rw [as_]
            refine settled.ahead.publish (fun order _ landed => ⟨?_, named_ ▸ stamped⟩) ?_
              fun order after now _ landed absorbed => idle after (landed.absorb_status absorbed)
            · rw [same]
              cases state : status.status <;> rw [state] at tells <;> dsimp only at tells
              case live => exact tells
              case filled => exact trivial
              case cancelled => exact ⟨tells.1, met order landed tells.2⟩
              case rejected => exact Or.inl tells
            · intro strictly order along landed
              have sent := past strictly order landed
              cases state : status.status <;> rw [state] at tells <;> dsimp only at tells
              case live =>
                refine takes_live (along.2 strictly) (same.trans state) sent ?_
                exact ((landed.atLook here).2 strictly).2 ⟨status, is, state, bare state⟩
              case filled => exact Or.inr (Or.inl (by rw [same, state]; rfl))
              case cancelled => exact takes_cancelled (same.trans state) sent
              case rejected =>
                have not : track.venue.accepted = false := by
                  rw [VenueOrder.accepted, tells]; rfl
                exact takes_refusal along.1 not (Or.inr ⟨same.trans state, sent⟩)

theorem Settled.lookStep {after : Track} {event : Track.LookEvent} {nowNs : Nanos}
    (settled : Settled strict track) (sound : Sound config track (.look cycle event nowNs))
    (clean : strict → Clean config track (.look cycle event nowNs))
    (stepped : track.lookStep config cycle event nowNs = some after) : Settled strict after := by
  unfold Track.lookStep at stepped
  split at stepped
  · split at stepped
    · rename_i opens
      cases stepped
      exact settled.asked opens.1 opens.2.2
    · cases stepped
  · rename_i ref here
    have active : track.looks cycle ≠ .idle := by rw [here]; intro clash; cases clash
    have named := settled.looks cycle
    rw [here] at named
    have popped := settled.aside none track.absence
    split at stepped
    · rename_i none_ blind
      cases stepped
      refine popped.fetched active named ⟨fun _ member => (by cases member), fun _ there => (by cases there),
        fun _ some_ => ?_⟩ fun bare => ?_
      · rw [blind] at some_; cases some_
      · obtain ⟨_, there, _⟩ := bare; cases there
    · rename_i oid none_ has
      cases stepped
      refine popped.looked active ⟨named, named (by rw [has]; rfl),
        ended_of_no_record none_⟩ fun _ _ _ => ⟨trivial, fun _ => trivial⟩
    · rename_i record venueOid there
      split at stepped
      · rename_i earlier
        cases stepped
        refine popped.fetched active named ⟨fun _ member => (by cases member),
          fun _ there => (by cases there), fun _ some_ => ?_⟩ fun bare => ?_
        · rw [earlier.1] at some_; cases some_
        · obtain ⟨_, there, _⟩ := bare; cases there
      · cases stepped
        exact popped.looked active ⟨named, recorded track.venue there⟩
          fun _ _ _ => ⟨trivial, fun _ => trivial⟩
  · rename_i ref record seen here
    have active : track.looks cycle ≠ .idle := by rw [here]; intro clash; cases clash
    have known := settled.looks cycle
    rw [here] at known
    obtain ⟨view_, fills⟩ := seen_found config ref known.2 seen track.shrunkFills nowNs
    cases stepped
    refine Settled.fetched (settled.aside _ track.absence) active known.1 view_ fun bare => ?_
    obtain ⟨_, _, _, none_⟩ := bare
    rw [← fills]
    exact none_
  · rename_i ref here
    have active : track.looks cycle ≠ .idle := by rw [here]; intro clash; cases clash
    have known := settled.looks cycle
    rw [here] at known
    cases stepped
    refine settled.fetched active known.1 ⟨fun _ member => member, fun _ there => (by cases there),
      fun _ _ accepted => ⟨known.2.2 accepted, fun _ member => member⟩⟩ fun bare => ?_
    obtain ⟨_, there, _⟩ := bare
    cases there
  · rename_i here
    cases stepped
    exact settled.looked (by rw [here]; intro clash; cases clash) trivial
      fun _ _ _ => ⟨trivial, fun _ => trivial⟩
  · rename_i here
    cases stepped
    exact settled.looked (by rw [here]; intro clash; cases clash) trivial
      fun _ _ _ => ⟨trivial, fun _ => trivial⟩
  · rename_i here
    cases stepped
    exact settled.looked (by rw [here]; intro clash; cases clash) trivial
      fun _ _ _ => ⟨trivial, fun _ => trivial⟩
  · rename_i ref view here
    have opened := settled.opened config nowNs here sound
    dsimp only at stepped
    cases opens : (track.opensWith config cycle view nowNs).1 with
    | none =>
        rw [opens] at opened
        simp only [opens] at stepped
        cases stepped
        exact opened.aside _ _
    | some opening =>
        rw [opens] at opened
        simp only [opens] at stepped
        cases opening with
        | failed report => cases stepped; exact opened.aside _ _
        | replay bridge => cases stepped; exact opened.aside _ _
  · rename_i ref view fill rest here
    cases stepped
    exact settled.replayed here
  · rename_i ref view here
    dsimp only at stepped
    cases stepped
    exact (settled.closed config nowNs here sound clean).aside _ _
  · cases stepped

end Looks

/-! ## The bus -/

theorem Settled.dispatched {track after : Track} {nowNs : Nanos} (settled : Settled strict track)
    (stepped : track.dispatch nowNs = some after) : Settled strict after := by
  have ahead := settled.ahead
  unfold Track.dispatch at stepped
  split at stepped
  · cases stepped
  · rename_i report rest next
    rw [next] at ahead
    split at stepped
    · rename_i violation raised
      cases stepped
      refine ⟨settled.ahead, settled.row, settled.lags, settled.looks, settled.placement,
        settled.verdicts, settled.boot, settled.running, fun is => ?_⟩
      have onward := ahead.2 nowNs
      rw [raised] at onward
      exact absurd is onward
    · rename_i moved absorbed
      cases stepped
      have onward := Ahead.took ahead absorbed
      refine ⟨onward, ?_, ?_, settled.looks, settled.placement, settled.verdicts, settled.boot,
        settled.running, settled.fault⟩
      · show Along strict track.venue (if moved = track.saga then track.row else moved)
        split
        · exact settled.row
        · exact onward.here
      · show (if moved = track.saga then track.row else moved) = moved ∨
          (if moved = track.saga then track.row else moved).state = .pending
        split
        · rename_i same
          rw [same]
          exact settled.lags
        · exact Or.inl rfl

theorem Settled.crashed {track : Track} (settled : Settled strict track) (redelivered : ℕ) :
    Settled strict (track.crash redelivered 0) := by
  refine ⟨?_, settled.row, Or.inl rfl, fun _ => trivial, trivial, fun member => (by cases member),
    fun _ => ⟨rfl, rfl, rfl⟩, fun yes => (by cases yes), fun _ => rfl⟩
  have none_ : (track.crash redelivered 0).queue = [] := by
    simp only [Track.crash, List.take_zero]
  rw [none_]
  exact ⟨settled.row, trivial, fun _ => trivial, fun _ => ⟨trivial, fun _ => trivial,
    fun active => absurd rfl active⟩⟩

/-! ## Runs -/

/-- **Every sound step keeps a track settled**; strictly, every sound and clean
one. -/
theorem step_settled {track after : Track} {step : Track.Step} (settled : Settled strict track)
    (sound : Sound config track step) (clean : strict → Clean config track step)
    (stepped : track.step config step = some after) : Settled strict after := by
  cases step with
  | crashes redelivered kept =>
      cases stepped
      have none_ : kept = 0 := sound
      rw [none_]
      exact settled.crashed redelivered
  | venue event =>
      simp only [Track.step] at stepped
      split at stepped
      · cases stepped
      · exact settled.venueStep sound stepped
  | placement event nowNs =>
      simp only [Track.step] at stepped
      split at stepped
      · cases stepped
      · exact settled.placementStep clean stepped
  | cancel event nowNs =>
      simp only [Track.step] at stepped
      split at stepped
      · cases stepped
      · exact settled.cancelStep sound clean stepped
  | look cycle event nowNs =>
      simp only [Track.step] at stepped
      split at stepped
      · cases stepped
      · exact settled.lookStep sound clean stepped
  | clears =>
      simp only [Track.step] at stepped
      split at stepped
      · cases stepped
      · split at stepped
        · rename_i idle
          cases stepped
          exact ⟨settled.ahead, settled.row, settled.lags, settled.looks, settled.placement,
            settled.verdicts, fun not => (by cases not), fun _ => idle, settled.fault⟩
        · cases stepped
  | dispatches nowNs =>
      simp only [Track.step] at stepped
      split at stepped
      · cases stepped
      · exact settled.dispatched stepped

/-- A placement opens a settled track. -/
theorem opened_settled (cloid : Cloid) (signal : PlaceSignal) (quantity : Decimal)
    (price : Option Decimal) (basis : Option Basis) (nowNs : Nanos) (positive : 0 < quantity) :
    Settled strict
      (Track.opened (approvedOrder cloid signal quantity price basis nowNs) positive nowNs) := by
  let order := approvedOrder cloid signal quantity price basis nowNs
  let venue := VenueOrder.sent order.symbol quantity order.reduceOnly positive
  have submitted : (submit order nowNs).appliedEventIds = {EventId.state cloid .submitted} := by
    show insert _ ∅ = _
    rw [Finset.insert_empty]
    rfl
  have unbooked : ∀ tradeId, ¬ Booked (submit order nowNs) tradeId := by
    intro tradeId booked
    unfold Booked at booked
    rw [submitted, Finset.mem_singleton] at booked
    cases booked
  have unended : ∀ state, state ≠ .submitted → ¬ Reflects (submit order nowNs) state := by
    intro state differs reflected
    unfold Reflects at reflected
    rw [submitted, Finset.mem_singleton] at reflected
    injection reflected with _ same
    exact differs same
  have saga : Along strict venue (submit order nowNs) := by
    refine ⟨⟨rfl, fun tradeId booked => absurd booked (unbooked tradeId), rfl,
      fun some_ => (by cases some_), fun _ => Or.inr (Or.inl rfl),
      fun finished => (by cases finished)⟩,
      fun _ => ⟨fun is => (by cases is), fun _ => Or.inr ?_, fun is => (by cases is),
        fun is => (by cases is), fun _ => positive, fun ends => ?_⟩⟩
    · unfold Reflects
      rw [submitted]
      exact Finset.mem_singleton_self _
    · rcases ends with is | is | is <;> exact absurd is (unended _ (by decide))
  have row : Along strict venue order := by
    refine ⟨⟨rfl, fun tradeId booked => absurd booked (Finset.notMem_empty _), rfl,
      fun some_ => (by cases some_), fun _ => Or.inl rfl,
      fun finished => (by cases finished)⟩,
      fun _ => ⟨fun _ => Finset.notMem_empty _, fun past => absurd rfl past,
        fun is => (by cases is), fun is => (by cases is), fun _ => positive, fun ends => ?_⟩⟩
    rcases ends with is | is | is <;> exact absurd is (Finset.notMem_empty _)
  refine ⟨⟨saga, trivial, fun _ => trivial, fun _ => ⟨?_, fun _ => trivial,
    fun active => absurd rfl active⟩⟩, row, Or.inr rfl, fun _ => trivial, trivial,
    fun member => (by cases member), fun not => (by cases not), fun _ => rfl, fun _ => rfl⟩
  show OrderState.submitted ≠ .pending
  decide

/-- **Every track of a sound run is settled.** -/
theorem desk_settled {desk : Desk} {labels : List Label}
    (meets : (Hyperliquid.desk config).Meets (fun desk label => ∀ cloid step track,
      label = .on cloid step → desk cloid = some track →
        Sound config track step ∧ (strict → Clean config track step)) (fun _ => none) labels)
    (ran : (Hyperliquid.desk config).run (fun _ => none) labels = some desk) :
    ∀ cloid track, desk cloid = some track → Settled strict track :=
  desk_induct (fun track step => Sound config track step ∧ (strict → Clean config track step))
    (fun cloid signal quantity price basis nowNs positive =>
      opened_settled cloid signal quantity price basis nowNs positive)
    (fun settled ok stepped => step_settled settled ok.1 ok.2 stepped)
    (fun _ _ none_ => by cases none_) meets ran

end Tickwright.Hyperliquid
