/-
# Hyperliquid.Faithful -- a saga that says no more than the venue holds

`Faithful venue saga` is what a live saga may be at any moment: its booked trades
are fills the venue holds, its cumulative size is their sum, and when it is
terminal over an accepted order the venue ended that order and every fill of it
is booked.  `Fact` is what a report must be for the saga it reaches, and
`Faithful.absorb` says facts keep a saga faithful.

`Regular` is the shape every saga has by construction (acked means the ack is
booked, partly filled means a fill is), and `Takes` is when a report is no fault.
-/
import Tickwright.Hyperliquid.Exchange

namespace Tickwright.Hyperliquid

open Tickwright.Domain Tickwright.Engine Tickwright.Theory VenueOrder

set_option autoImplicit false

/-- The saga has booked this trade. -/
def Booked (order : Order) (tradeId : String) : Prop :=
  EventId.fill order.cloid tradeId ∈ order.appliedEventIds

instance Booked.decidable (order : Order) : DecidablePred (Booked order) := fun tradeId =>
  inferInstanceAs (Decidable (EventId.fill order.cloid tradeId ∈ order.appliedEventIds))

/-- The saga reflects this status. -/
def Reflects (order : Order) (state : OrderState) : Prop :=
  EventId.state order.cloid state ∈ order.appliedEventIds

/-- Every fill the venue holds is booked. -/
def Whole (venue : VenueOrder) (order : Order) : Prop :=
  ∀ fill ∈ venue.fills, Booked order fill.tradeId

structure Faithful (venue : VenueOrder) (order : Order) : Prop where
  asked : order.quantity = venue.asked
  known : ∀ tradeId, Booked order tradeId → ∃ fill ∈ venue.fills, fill.tradeId = tradeId
  cum : order.cumQty = bookedTotal venue.fills (Booked order)
  oid : order.venueOid.isSome = true → venue.stage ≠ .onWire
  early : venue.accepted = false → order.state = .pending ∨ order.state = .submitted ∨
    order.state = .failed ∨ (order.state = .rejected ∧ venue.stage = .refused)
  ended : order.isTerminal = true → venue.accepted = true → venue.ended = true ∧ Whole venue order

structure Regular (order : Order) : Prop where
  fresh : order.state = .pending → ¬ Reflects order .submitted
  sent : order.state ≠ .pending → order.isTerminal = true ∨ Reflects order .submitted
  acked : order.state = .live → Reflects order .live
  part : order.state = .partiallyFilled → ∃ tradeId, Booked order tradeId
  short : order.isTerminal = false → order.cumQty < order.quantity
  finished : Reflects order .cancelled ∨ Reflects order .rejected ∨ Reflects order .failed →
    order.isTerminal = true

/-- What a status must be to the saga it reaches. -/
def Lawful (venue : VenueOrder) (order : Order) (status : OrderState) : Prop :=
  match status with
  | .live => venue.accepted = true
  | .cancelled => venue.ended = true ∧ Whole venue order
  | .rejected => venue.stage = .refused ∨ (venue.ended = true ∧ Whole venue order)
  | .failed => venue.accepted = false
  | .pending | .submitted | .partiallyFilled | .filled | .denied => True

/-- What a report must be to the saga it reaches. -/
def Fact (venue : VenueOrder) (order : Order) : ExecutionReport → Prop
  | .status report => Lawful venue order report.status ∧
      (report.venueOid.isSome = true → venue.stage ≠ .onWire)
  | .fill report => ∃ fill ∈ venue.fills,
      fill.tradeId = report.tradeId ∧ fill.quantity = report.quantity
  | .refused _ _ => True

/-- A report that is no fault for this saga. -/
def Takes (order : Order) : ExecutionReport → Prop
  | .status report => order.isTerminal = true ∨ mapsToMove report.status = false ∨
      Reflects order report.status ∨ order.state.legalTransition report.status = true
  | .fill report => 0 < report.quantity ∧ (Booked order report.tradeId ∨
      order.state = .submitted ∨ order.state.isWorking = true)
  | .refused _ _ => True

theorem Takes.absorb {order : Order} {report : ExecutionReport} (takes : Takes order report)
    (nowNs : Nanos) : ∃ after, absorb order report nowNs = .ok after := by
  cases report with
  | status report => exact absorb_status_ok nowNs takes
  | fill report => exact absorb_fill_ok nowNs takes.1 takes.2
  | refused cloid symbol => exact ⟨order, rfl⟩

/-! ## What an absorbed report does to bookings -/

theorem booked_status {order after : Order} {report : OrderStatusReport} {nowNs : Nanos}
    (absorbed : absorb order (.status report) nowNs = .ok after) (tradeId : String) :
    Booked after tradeId ↔ Booked order tradeId := by
  have keyed := (absorb_terms absorbed).1.1
  unfold Booked
  rw [keyed]
  rcases absorb_ok absorbed with ⟨rfl, _⟩ | moved
  · exact Iff.rfl
  · rw [moved.did.2.2.2.2.2.2.2, Finset.mem_insert]
    constructor
    · rintro (clash | there)
      · cases clash
      · exact there
    · exact Or.inr

theorem booked_fill {order after : Order} {report : FillReport} {nowNs : Nanos}
    (absorbed : absorb order (.fill report) nowNs = .ok after) (tradeId : String) :
    Booked after tradeId ↔ Booked order tradeId ∨ tradeId = report.tradeId := by
  have keyed := (absorb_terms absorbed).1.1
  unfold Booked
  rw [keyed]
  rcases absorb_ok absorbed with ⟨rfl, idle⟩ | moved
  · refine ⟨Or.inl, fun either => either.elim id fun is => ?_⟩
    rw [is]
    exact idle.2
  · rw [moved.did.2.2.2.2.2.2, Finset.mem_insert]
    constructor
    · rintro (is | there)
      · injection is with _ same; exact Or.inr same
      · exact Or.inl there
    · rintro (there | is)
      · exact Or.inr there
      · rw [is]; exact Or.inl rfl

/-- Bookings and reflected statuses are never undone. -/
theorem booked_mono {order after : Order} {report : ExecutionReport} {nowNs : Nanos}
    (absorbed : absorb order report nowNs = .ok after) {tradeId : String}
    (booked : Booked order tradeId) : Booked after tradeId := by
  obtain ⟨terms, more⟩ := absorb_terms absorbed
  unfold Booked at booked ⊢
  rw [terms.1]
  exact more booked

theorem reflects_mono {order after : Order} {report : ExecutionReport} {nowNs : Nanos}
    (absorbed : absorb order report nowNs = .ok after) {state : OrderState}
    (reflected : Reflects order state) : Reflects after state := by
  obtain ⟨terms, more⟩ := absorb_terms absorbed
  unfold Reflects at reflected ⊢
  rw [terms.1]
  exact more reflected

theorem terminal_mono {order after : Order} {report : ExecutionReport} {nowNs : Nanos}
    (absorbed : absorb order report nowNs = .ok after) (terminal : order.isTerminal = true) :
    after.isTerminal = true := by
  rw [absorb_of_isTerminal terminal absorbed]
  exact terminal

theorem past_pending {order after : Order} {report : ExecutionReport} {nowNs : Nanos}
    (absorbed : absorb order report nowNs = .ok after) (past : order.state ≠ .pending) :
    after.state ≠ .pending := by
  rcases absorb_ok absorbed with ⟨rfl, _⟩ | moved
  · exact past
  · have did := moved.did
    intro is
    cases report with
    | status report =>
        have legal := did.2.2.2.1
        rw [← did.2.2.2.2.1, is, OrderState.legalTransition_pending] at legal
        cases legal
    | fill report =>
        have legal := did.2.2.1
        rw [is, OrderState.legalTransition_pending] at legal
        cases legal
    | refused cloid symbol => exact did

/-! ## Facts keep a saga faithful -/

variable {venue : VenueOrder} {order after : Order}

theorem Faithful.whole_cum (faithful : Faithful venue order) (whole : Whole venue order) :
    order.cumQty = venue.total := by
  rw [faithful.cum]
  exact bookedTotal_all whole

theorem Faithful.absorb_status {report : OrderStatusReport} {nowNs : Nanos}
    (faithful : Faithful venue order) (fact : Fact venue order (.status report))
    (absorbed : absorb order (.status report) nowNs = .ok after) : Faithful venue after := by
  have same := booked_status absorbed
  have terms := (absorb_terms absorbed).1
  rcases absorb_ok absorbed with ⟨rfl, _⟩ | moved
  · exact faithful
  · obtain ⟨open_, maps, _, legal, state, oid, cum, _⟩ := moved.did
    obtain ⟨lawful, stamped⟩ := fact
    have wholeAfter : Whole venue order → Whole venue after :=
      fun whole fill member => (same _).mpr (whole fill member)
    refine ⟨terms.2.2.2.1.trans faithful.asked, ?_, ?_, ?_, ?_, ?_⟩
    · intro tradeId booked
      exact faithful.known tradeId ((same tradeId).mp booked)
    · rw [cum, faithful.cum]
      exact bookedTotal_congr fun fill _ => (same fill.tradeId).symm
    · intro some_
      rw [oid] at some_
      cases named : report.venueOid with
      | some o => exact stamped (by rw [named]; rfl)
      | none => rw [named] at some_; exact faithful.oid some_
    · intro not
      rw [state]
      cases is : report.status <;> rw [is] at maps lawful <;> simp only [Lawful] at lawful
      case submitted => exact Or.inr (Or.inl rfl)
      case live => rw [not] at lawful; cases lawful
      case cancelled => rw [accepted_of_ended lawful.1] at not; cases not
      case rejected =>
        rcases lawful with refused | ⟨ended, _⟩
        · exact Or.inr (Or.inr (Or.inr ⟨rfl, refused⟩))
        · rw [accepted_of_ended ended] at not; cases not
      case failed => exact Or.inr (Or.inr (Or.inl rfl))
      all_goals cases maps
    · intro terminal accepted
      unfold Order.isTerminal at terminal
      rw [state] at terminal
      cases is : report.status <;> rw [is] at maps lawful terminal <;> simp only [Lawful] at lawful
      case cancelled => exact ⟨lawful.1, wholeAfter lawful.2⟩
      case rejected =>
        rcases lawful with refused | ⟨ended, whole⟩
        · rw [VenueOrder.accepted, refused] at accepted; cases accepted
        · exact ⟨ended, wholeAfter whole⟩
      case failed => rw [lawful] at accepted; cases accepted
      all_goals first | (exfalso; revert maps; decide) | (exfalso; revert terminal; decide)

theorem Faithful.absorb_fill {report : FillReport} {nowNs : Nanos}
    (faithful : Faithful venue order) (fact : Fact venue order (.fill report))
    (absorbed : absorb order (.fill report) nowNs = .ok after) : Faithful venue after := by
  obtain ⟨fill, member, trade, size⟩ := fact
  have accepted := accepted_of_fill member
  have same := booked_fill absorbed
  have terms := (absorb_terms absorbed).1
  rcases absorb_ok absorbed with ⟨rfl, _⟩ | moved
  · exact faithful
  · obtain ⟨positive, fresh, legal, state, oid, cum, _⟩ := moved.did
    have total : after.cumQty = bookedTotal venue.fills (Booked after) := by
      have unbooked : ¬ Booked order fill.tradeId := by rw [trade]; exact fresh
      rw [cum, faithful.cum, ← size]
      refine (bookedTotal_insert venue.distinct member unbooked fun tradeId => ?_).symm
      rw [same, trade]
    have known : ∀ tradeId, Booked after tradeId → ∃ fill ∈ venue.fills, fill.tradeId = tradeId := by
      intro tradeId booked
      rcases (same tradeId).mp booked with old | new
      · exact faithful.known tradeId old
      · exact ⟨fill, member, trade.trans new.symm⟩
    have asked := terms.2.2.2.1.trans faithful.asked
    have oid' : after.venueOid.isSome = true → venue.stage ≠ .onWire := by
      rw [oid]; exact faithful.oid
    refine ⟨asked, known, total, oid', fun not => ?_, fun terminal _ => ?_⟩
    · rw [accepted] at not; cases not
    · -- Only a completing fill is terminal, and it leaves nothing out.
      have reaches : after.quantity ≤ after.cumQty := by
        rw [terms.2.2.2.1, cum]
        by_contra short
        unfold Order.isTerminal at terminal
        rw [state, if_neg short] at terminal
        cases terminal
      rw [asked, total] at reaches
      exact venue.ended_of_asked accepted reaches

/-- **Facts keep a saga faithful.** -/
theorem Faithful.absorb {report : ExecutionReport} {nowNs : Nanos}
    (faithful : Faithful venue order) (fact : Fact venue order report)
    (absorbed : absorb order report nowNs = .ok after) : Faithful venue after := by
  cases report with
  | status report => exact faithful.absorb_status fact absorbed
  | fill report => exact faithful.absorb_fill fact absorbed
  | refused cloid symbol => cases absorbed; exact faithful

/-- Every report keeps a saga regular. -/
theorem Regular.absorb {report : ExecutionReport} {nowNs : Nanos} (regular : Regular order)
    (absorbed : absorb order report nowNs = .ok after) : Regular after := by
  have reflected := @reflects_mono _ _ _ _ absorbed
  rcases absorb_ok absorbed with ⟨rfl, _⟩ | moved
  · exact regular
  · have terms := (absorb_terms absorbed).1
    have did := moved.did
    have never : after.state = .pending → ¬ Reflects after .submitted := by
      intro is
      have legal : order.state.legalTransition after.state = true := by
        cases report with
        | refused cloid symbol => exact did.elim
        | status report => exact did.2.2.2.2.1 ▸ did.2.2.2.1
        | fill report => exact did.2.2.1
      rw [is, OrderState.legalTransition_pending] at legal
      cases legal
    cases report with
    | refused cloid symbol => exact did.elim
    | status report =>
        obtain ⟨open_, maps, _, legal, state, _, _, applied⟩ := did
        have entered : Reflects after report.status := by
          unfold Reflects; rw [terms.1, applied]; exact Finset.mem_insert_self _ _
        unfold Order.isTerminal at open_
        refine ⟨never, fun _ => ?_, fun is => ?_, fun is => ?_, fun _ => ?_, fun ends => ?_⟩
        · by_cases terminal : after.isTerminal = true
          · exact Or.inl terminal
          · refine Or.inr ?_
            unfold Order.isTerminal at terminal
            rw [state] at terminal
            cases is : report.status <;> rw [is] at maps legal entered terminal
            case submitted => exact entered
            case live =>
              have submitted : order.state = .submitted := by
                cases was : order.state <;> rw [was] at legal <;> first | rfl | cases legal
              have past : order.state ≠ .pending := by rw [submitted]; decide
              rcases regular.sent past with finished | sent
              · unfold Order.isTerminal at finished; rw [submitted] at finished; cases finished
              · exact reflected sent
            all_goals first | exact absurd rfl terminal | (exfalso; revert maps; decide)
        · rw [state] at is; rw [is] at entered; exact entered
        · rw [state] at is; rw [is] at maps; cases maps
        · rw [terms.2.2.2.1, (moved.did).2.2.2.2.2.2.1]
          exact regular.short open_
        · -- The saga was open, so an ending status it reflects is the one it entered.
          have new : ∀ ending, Reflects after ending → ¬ Reflects order ending →
              ending = report.status := by
            intro ending there absent
            unfold Reflects at there absent
            rw [terms.1, applied, Finset.mem_insert] at there
            rcases there with is | old
            · injection is
            · exact absurd old absent
          have shut : ¬ (Reflects order .cancelled ∨ Reflects order .rejected ∨
              Reflects order .failed) := by
            intro ended
            have finished := regular.finished ended
            unfold Order.isTerminal at finished
            rw [open_] at finished
            cases finished
          unfold Order.isTerminal
          rw [state]
          rcases ends with is | is | is
          · rw [← new _ is fun was => shut (Or.inl was)]; rfl
          · rw [← new _ is fun was => shut (Or.inr (Or.inl was))]; rfl
          · rw [← new _ is fun was => shut (Or.inr (Or.inr was))]; rfl
    | fill report =>
        obtain ⟨_, _, legal, state, _, cum, applied⟩ := did
        have booked : Booked after report.tradeId := by
          unfold Booked; rw [terms.1]; exact absorb_fill_booked absorbed
        refine ⟨never, fun _ => ?_, fun is => ?_, fun _ => ⟨_, booked⟩, fun open_ => ?_, fun ends => ?_⟩
        · have past : order.state ≠ .pending := by
            intro was
            rw [state, was] at legal
            split at legal <;> cases legal
          rcases regular.sent past with finished | sent
          · unfold Order.isTerminal at finished
            rw [OrderState.legalTransition_of_isTerminal finished] at legal
            cases legal
          · exact Or.inr (reflected sent)
        · rw [is] at state; split at state <;> cases state
        · unfold Order.isTerminal at open_
          rw [terms.2.2.2.1, cum]
          by_contra reaches
          rw [state, if_pos (not_lt.mp reaches)] at open_
          cases open_
        · have old : Reflects order .cancelled ∨ Reflects order .rejected ∨
              Reflects order .failed := by
            unfold Reflects at ends ⊢
            rw [terms.1, applied] at ends
            simpa only [Finset.mem_insert, reduceCtorEq, false_or] using ends
          have finished := regular.finished old
          unfold Order.isTerminal at finished
          rw [OrderState.legalTransition_of_isTerminal finished] at legal
          cases legal

/-! ## What the venue does keeps a saga faithful -/

/-- A fill the venue adds is booked in no saga that was faithful before it. -/
theorem bookedTotal_grown {before grown : VenueOrder} (grows : Grows before grown)
    (faithful : Faithful before order) :
    bookedTotal grown.fills (Booked order) = bookedTotal before.fills (Booked order) := by
  obtain ⟨more, is⟩ := grows.prefix_
  have distinct := grown.distinct
  rw [is, List.map_append, List.nodup_append] at distinct
  have none_ : (more.filter fun fill => Booked order fill.tradeId) = [] := by
    rw [List.filter_eq_nil_iff]
    intro fill member booked
    obtain ⟨old, there, same⟩ := faithful.known fill.tradeId (by simpa using booked)
    exact distinct.2.2 _ (List.mem_map_of_mem there) _ (List.mem_map_of_mem member) same
  simp only [bookedTotal]
  rw [is, List.filter_append, none_, List.append_nil]

theorem not_onWire_grown {before grown : VenueOrder} (grows : Grows before grown)
    (sent : before.stage ≠ .onWire) : grown.stage ≠ .onWire := by
  by_cases resting : before.stage = .resting
  · have accepted := (grows.keeps (by rw [VenueOrder.accepted, resting]; rfl)).1
    intro is
    rw [VenueOrder.accepted, is] at accepted
    cases accepted
  · rw [(grows.final sent resting).1]
    exact sent

/-- **What the venue does keeps a saga faithful**, unless it accepts an order
whose saga is terminal already. -/
theorem Faithful.grown {before grown : VenueOrder} (faithful : Faithful before order)
    (grows : Grows before grown)
    (lands : before.accepted = false → grown.accepted = true → order.isTerminal = false) :
    Faithful grown order := by
  refine ⟨faithful.asked.trans grows.asked.symm, ?_, ?_, ?_, ?_, ?_⟩
  · intro tradeId booked
    obtain ⟨fill, member, is⟩ := faithful.known tradeId booked
    exact ⟨fill, grows.mem member, is⟩
  · rw [bookedTotal_grown grows faithful]
    exact faithful.cum
  · intro named
    exact not_onWire_grown grows (faithful.oid named)
  · intro not
    have was : before.accepted = false := by
      by_contra accepted
      rw [(grows.keeps (by simpa using accepted)).1] at not
      cases not
    rcases faithful.early was with is | is | is | ⟨is, refused⟩
    · exact Or.inl is
    · exact Or.inr (Or.inl is)
    · exact Or.inr (Or.inr (Or.inl is))
    · exact Or.inr (Or.inr (Or.inr ⟨is, grows.refused refused⟩))
  · intro terminal accepted
    cases was : before.accepted with
    | false => rw [lands was accepted] at terminal; cases terminal
    | true =>
        obtain ⟨ended, whole⟩ := faithful.ended terminal was
        obtain ⟨stays, same⟩ := grows.ended ended
        refine ⟨stays, ?_⟩
        intro fill member
        rw [same] at member
        exact whole fill member

end Tickwright.Hyperliquid
