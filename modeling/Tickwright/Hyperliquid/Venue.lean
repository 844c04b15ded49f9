/-
# Hyperliquid.Venue -- one order as the venue holds it

The venue is outside the repository, so this is its contract and not its code.
An order goes out on the wire and is accepted or refused once.  An accepted one
holds a list of fills that only grows while it rests, and stops growing when the
venue itself ends the order: filled (a reduce-only order possibly shrunk to its
position) or cancelled.  Later the venue may drop the order's record and keep its
fills.

`VenueOrder` carries what the venue promises about that list as fields: distinct
trades, positive sizes, never more than was asked, nothing before acceptance.
`Grows` is what any venue event can do; every later argument uses that relation,
and none looks at a single event (`VenueOrder.happens_grows`).
-/
import Tickwright.Domain.Venue
import Mathlib.Data.List.Nodup
import Mathlib.Algebra.Order.BigOperators.Group.List

namespace Tickwright.Hyperliquid

open Tickwright.Domain

set_option autoImplicit false

/-- Where one order is in its venue life. -/
inductive Stage
  | onWire
  | refused
  | resting
  | filled
  | cancelled
deriving DecidableEq, Repr

namespace Stage

/-- The venue took the order. -/
def accepted : Stage → Bool
  | resting | filled | cancelled => true
  | onWire | refused => false

/-- The venue ended the order it took. -/
def ended : Stage → Bool
  | filled | cancelled => true
  | onWire | refused | resting => false

end Stage

/-- The total size of a list of fills (`_fill_total`). -/
def fillTotal (fills : List FillReport) : Decimal := (fills.map FillReport.quantity).sum

/-- One order as the venue holds it. -/
structure VenueOrder where
  coin : Symbol
  asked : Decimal
  reduceOnly : Bool
  stage : Stage := .onWire
  oid : String := ""
  timestampMs : ℤ := 0
  /-- Whether `orderStatus` still has the record. -/
  listed : Bool := true
  fills : List FillReport := []
  distinct : (fills.map FillReport.tradeId).Nodup
  positive : ∀ fill ∈ fills, 0 < fill.quantity
  within : fillTotal fills ≤ asked
  /-- A resting order has size left. -/
  unfinished : stage = .resting → fillTotal fills < asked
  taken : stage.accepted = false → fills = []
  /-- Only an order the venue no longer works loses its record. -/
  dropped : listed = false → stage.ended = true ∨ stage = .refused

namespace VenueOrder

def accepted (order : VenueOrder) : Bool := order.stage.accepted

def ended (order : VenueOrder) : Bool := order.stage.ended

def total (order : VenueOrder) : Decimal := fillTotal order.fills

/-- The order as it goes out. -/
def sent (coin : Symbol) (asked : Decimal) (reduceOnly : Bool) (positive : 0 < asked) :
    VenueOrder where
  coin := coin
  asked := asked
  reduceOnly := reduceOnly
  fills := []
  distinct := List.nodup_nil
  positive := by intro fill member; cases member
  within := le_of_lt positive
  unfinished := by intro resting; cases resting
  taken := fun _ => rfl
  dropped := fun not => by cases not

/-! ## What can happen to it -/

inductive VenueEvent
  | accepts (oid : String) (timestampMs : ℤ)
  | refuses (listed : Bool)
  | fills (fill : FillReport)
  /-- A reduce-only order ends filled at what its position left it. -/
  | shrinks
  | cancels
  | forgets
deriving DecidableEq

def accept (order : VenueOrder) (oid : String) (timestampMs : ℤ) : Option VenueOrder :=
  if h : order.stage = .onWire ∧ 0 < order.asked then
    some
      { order with
        stage := .resting
        oid := oid
        timestampMs := timestampMs
        unfinished := fun _ => by
          have none_ := order.taken (by rw [h.1]; rfl)
          rw [none_]
          exact h.2
        taken := fun not => by cases not
        dropped := fun not => by
          rcases order.dropped not with ended | refused
          · rw [h.1] at ended; cases ended
          · rw [h.1] at refused; cases refused }
  else
    none

def refuse (order : VenueOrder) (listed : Bool) : Option VenueOrder :=
  if h : order.stage = .onWire then
    some
      { order with
        stage := .refused
        listed := listed
        unfinished := fun resting => by cases resting
        taken := fun _ => order.taken (by rw [h]; rfl)
        dropped := fun _ => Or.inr rfl }
  else
    none

theorem fillTotal_append (fills : List FillReport) (fill : FillReport) :
    fillTotal (fills ++ [fill]) = fillTotal fills + fill.quantity := by
  simp [fillTotal]

def fill (order : VenueOrder) (fill : FillReport) : Option VenueOrder :=
  if h : order.stage = .resting ∧ 0 < fill.quantity ∧
      fill.tradeId ∉ order.fills.map FillReport.tradeId ∧
      order.total + fill.quantity ≤ order.asked then
    some
      { order with
        stage := if order.total + fill.quantity = order.asked then .filled else .resting
        fills := order.fills ++ [fill]
        distinct := by
          rw [List.map_append, List.nodup_append]
          refine ⟨order.distinct, List.nodup_singleton _, ?_⟩
          intro tradeId old other new same
          rw [List.map_singleton, List.mem_singleton] at new
          rw [same, new] at old
          exact h.2.2.1 old
        positive := by
          intro any member
          rcases List.mem_append.mp member with old | new
          · exact order.positive any old
          · rw [List.mem_singleton.mp new]; exact h.2.1
        within := by rw [fillTotal_append]; exact h.2.2.2
        unfinished := fun resting => by
          rw [fillTotal_append]
          split at resting
          · cases resting
          · rename_i short
            exact lt_of_le_of_ne h.2.2.2 short
        taken := fun not => by split at not <;> cases not
        dropped := fun not => by
          rcases order.dropped not with ended | refused
          · rw [h.1] at ended; cases ended
          · rw [h.1] at refused; cases refused }
  else
    none

/-- The venue ends an order it holds, at the fills it has. -/
def finish (order : VenueOrder) (stage : Stage) : Option VenueOrder :=
  if h : order.stage = .resting ∧ stage.ended = true then
    some
      { order with
        stage := stage
        unfinished := fun resting => by rw [resting] at h; cases h.2
        taken := fun not => by
          cases stage <;> first | exact absurd h.2 (by decide) | cases not
        dropped := fun _ => Or.inl h.2 }
  else
    none

/-- The venue drops the record of an order it no longer works. -/
def forget (order : VenueOrder) : Option VenueOrder :=
  if h : order.ended = true ∨ order.stage = .refused then
    some { order with listed := false, dropped := fun _ => h }
  else
    none

def happens (order : VenueOrder) : VenueEvent → Option VenueOrder
  | .accepts oid timestampMs => order.accept oid timestampMs
  | .refuses listed => order.refuse listed
  | .fills fill => order.fill fill
  | .shrinks => if order.reduceOnly then order.finish .filled else none
  | .cancels => order.finish .cancelled
  | .forgets => order.forget

/-! ## What any of it does -/

/-- **What a venue event can do**: fills are only added, and only while the
order rests; an ended or refused order stays so, with the fills it has. -/
structure Grows (before after : VenueOrder) : Prop where
  asked : after.asked = before.asked
  reduceOnly : after.reduceOnly = before.reduceOnly
  prefix_ : ∃ more, after.fills = before.fills ++ more
  final : before.stage ≠ .onWire → before.stage ≠ .resting →
    after.stage = before.stage ∧ after.fills = before.fills
  keeps : before.accepted = true → after.accepted = true ∧ after.oid = before.oid ∧
    after.timestampMs = before.timestampMs
  listed : before.accepted = true → after.listed = true → before.listed = true
  ends : after.listed = false → before.listed = true → after.stage ≠ .onWire ∧ after.stage ≠ .resting
  /-- An event that puts the order into the venue's book adds no fill yet. -/
  enters : before.accepted = false → after.fills = before.fills

theorem happens_grows {order after : VenueOrder} {event : VenueEvent}
    (happened : order.happens event = some after) : Grows order after := by
  cases event with
  | accepts oid timestampMs =>
      simp only [happens, accept] at happened
      split at happened
      · rename_i h
        cases happened
        refine ⟨rfl, rfl, ⟨[], by simp⟩, fun not => absurd h.1 not, ?_, ?_, ?_, fun _ => rfl⟩
        · intro accepted; rw [VenueOrder.accepted, h.1] at accepted; cases accepted
        · intro accepted; rw [VenueOrder.accepted, h.1] at accepted; cases accepted
        · intro gone there; rw [there] at gone; cases gone
      · cases happened
  | refuses listed =>
      simp only [happens, refuse] at happened
      split at happened
      · rename_i h
        cases happened
        refine ⟨rfl, rfl, ⟨[], by simp⟩, fun not => absurd h not, ?_, ?_, ?_, fun _ => rfl⟩
        · intro accepted; rw [VenueOrder.accepted, h] at accepted; cases accepted
        · intro accepted; rw [VenueOrder.accepted, h] at accepted; cases accepted
        · intro _ _; constructor <;> intro is <;> cases is
      · cases happened
  | fills fill =>
      simp only [happens, VenueOrder.fill] at happened
      split at happened
      · rename_i h
        cases happened
        refine ⟨rfl, rfl, ⟨[fill], rfl⟩, fun _ not => absurd h.1 not, ?_, fun _ there => there, ?_, ?_⟩
        · intro _
          refine ⟨?_, rfl, rfl⟩
          show (if _ then Stage.filled else Stage.resting).accepted = true
          split <;> rfl
        · intro gone there; rw [there] at gone; cases gone
        · intro not; rw [VenueOrder.accepted, h.1] at not; cases not
      · cases happened
  | shrinks =>
      simp only [happens, finish] at happened
      split at happened
      · split at happened
        · rename_i h
          cases happened
          refine ⟨rfl, rfl, ⟨[], by simp⟩, fun _ not => absurd h.1 not, fun _ => ⟨rfl, rfl, rfl⟩,
            fun _ there => there, ?_, fun _ => rfl⟩
          intro gone there; rw [there] at gone; cases gone
        · cases happened
      · cases happened
  | cancels =>
      simp only [happens, finish] at happened
      split at happened
      · rename_i h
        cases happened
        refine ⟨rfl, rfl, ⟨[], by simp⟩, fun _ not => absurd h.1 not, fun _ => ⟨rfl, rfl, rfl⟩,
          fun _ there => there, ?_, fun _ => rfl⟩
        intro gone there; rw [there] at gone; cases gone
      · cases happened
  | forgets =>
      simp only [happens, forget] at happened
      split at happened
      · rename_i h
        cases happened
        refine ⟨rfl, rfl, ⟨[], by simp⟩, fun _ _ => ⟨rfl, rfl⟩, fun accepted => ⟨accepted, rfl, rfl⟩,
          ?_, ?_, fun _ => rfl⟩
        · intro _ there; cases there
        · intro _ _
          rcases h with ended | refused
          · constructor <;> intro is <;> rw [VenueOrder.ended, is] at ended <;> cases ended
          · constructor <;> intro is <;> rw [refused] at is <;> cases is
      · cases happened

namespace Grows

variable {before after : VenueOrder}

theorem mem (grows : Grows before after) {fill : FillReport} (member : fill ∈ before.fills) :
    fill ∈ after.fills := by
  obtain ⟨more, is⟩ := grows.prefix_
  rw [is]
  exact List.mem_append_left _ member

theorem ended (grows : Grows before after) (ended : before.ended = true) :
    after.ended = true ∧ after.fills = before.fills := by
  have final := grows.final (by intro is; rw [VenueOrder.ended, is] at ended; cases ended)
    (by intro is; rw [VenueOrder.ended, is] at ended; cases ended)
  refine ⟨?_, final.2⟩
  rw [VenueOrder.ended, final.1]
  exact ended

theorem refused (grows : Grows before after) (refused : before.stage = .refused) :
    after.stage = .refused := by
  have final := grows.final (by rw [refused]; decide) (by rw [refused]; decide)
  rw [final.1, refused]

end Grows

theorem accepted_of_ended {order : VenueOrder} (ended : order.ended = true) :
    order.accepted = true := by
  unfold VenueOrder.ended at ended
  unfold accepted
  cases stage : order.stage <;> rw [stage] at ended <;> first | rfl | cases ended

theorem accepted_of_fill {order : VenueOrder} {fill : FillReport} (member : fill ∈ order.fills) :
    order.accepted = true := by
  by_contra not
  have none_ := order.taken (by simpa [accepted] using not)
  rw [none_] at member
  cases member

/-! ## Sums over the fills a saga has booked -/

/-- The total of those fills whose trade `p` picks. -/
def bookedTotal (fills : List FillReport) (p : String → Prop) [DecidablePred p] : Decimal :=
  fillTotal (fills.filter fun fill => p fill.tradeId)

theorem bookedTotal_congr {fills : List FillReport} {p q : String → Prop} [DecidablePred p]
    [DecidablePred q] (same : ∀ fill ∈ fills, p fill.tradeId ↔ q fill.tradeId) :
    bookedTotal fills p = bookedTotal fills q := by
  simp only [bookedTotal]
  congr 1
  apply List.filter_congr
  intro fill member
  simp only [same fill member]

/-- Booking one more trade of the list adds its size. -/
theorem bookedTotal_insert {fills : List FillReport} {p q : String → Prop} [DecidablePred p]
    [DecidablePred q] (distinct : (fills.map FillReport.tradeId).Nodup) {fill : FillReport}
    (member : fill ∈ fills) (fresh : ¬ p fill.tradeId)
    (adds : ∀ tradeId, q tradeId ↔ p tradeId ∨ tradeId = fill.tradeId) :
    bookedTotal fills q = bookedTotal fills p + fill.quantity := by
  induction fills with
  | nil => cases member
  | cons head rest ih =>
      rw [List.map_cons, List.nodup_cons] at distinct
      have others : fill = head ∨ fill ∈ rest := List.mem_cons.mp member
      by_cases same : fill = head
      · subst same
        have rest_same : bookedTotal rest q = bookedTotal rest p := by
          apply bookedTotal_congr
          intro other there
          rw [adds]
          refine ⟨fun either => either.elim id fun is => ?_, Or.inl⟩
          have clash : fill.tradeId ∈ rest.map FillReport.tradeId := by
            rw [← is]; exact List.mem_map_of_mem there
          exact absurd clash distinct.1
        have picked : q fill.tradeId := (adds _).mpr (Or.inr rfl)
        have left : bookedTotal (fill :: rest) q = fill.quantity + bookedTotal rest q := by
          simp [bookedTotal, fillTotal, picked]
        have right : bookedTotal (fill :: rest) p = bookedTotal rest p := by
          simp [bookedTotal, fresh]
        rw [left, right, rest_same, add_comm]
      · have there : fill ∈ rest := others.resolve_left same
        have tail := ih distinct.2 there
        have differs : head.tradeId ≠ fill.tradeId := by
          intro clash
          apply distinct.1
          rw [clash]
          exact List.mem_map_of_mem there
        have agree : q head.tradeId ↔ p head.tradeId := by
          rw [adds]
          exact ⟨fun either => either.elim id fun is => absurd is differs, Or.inl⟩
        by_cases picked : p head.tradeId
        · have left : bookedTotal (head :: rest) q = head.quantity + bookedTotal rest q := by
            simp [bookedTotal, fillTotal, agree.mpr picked]
          have right : bookedTotal (head :: rest) p = head.quantity + bookedTotal rest p := by
            simp [bookedTotal, fillTotal, picked]
          rw [left, right, tail, add_assoc]
        · have unpicked : ¬ q head.tradeId := fun is => picked (agree.mp is)
          have left : bookedTotal (head :: rest) q = bookedTotal rest q := by
            simp [bookedTotal, unpicked]
          have right : bookedTotal (head :: rest) p = bookedTotal rest p := by
            simp [bookedTotal, picked]
          rw [left, right, tail]

/-- A booked total is short by what it leaves out, so one that reaches the whole
left nothing out. -/
theorem all_of_bookedTotal {fills : List FillReport} {p : String → Prop} [DecidablePred p]
    (positive : ∀ fill ∈ fills, 0 < fill.quantity) :
    bookedTotal fills p ≤ fillTotal fills ∧
      (fillTotal fills ≤ bookedTotal fills p → ∀ fill ∈ fills, p fill.tradeId) := by
  induction fills with
  | nil => exact ⟨le_refl _, fun _ fill member => by cases member⟩
  | cons head rest ih =>
      obtain ⟨short, whole⟩ := ih fun fill member => positive fill (List.mem_cons_of_mem _ member)
      have head_positive := positive head List.mem_cons_self
      have total : fillTotal (head :: rest) = head.quantity + fillTotal rest := by
        simp [fillTotal]
      by_cases picked : p head.tradeId
      · have booked : bookedTotal (head :: rest) p = head.quantity + bookedTotal rest p := by
          simp [bookedTotal, fillTotal, picked]
        rw [total, booked]
        refine ⟨by linarith, fun reaches fill member => ?_⟩
        rcases List.mem_cons.mp member with rfl | there
        · exact picked
        · exact whole (by linarith) fill there
      · have booked : bookedTotal (head :: rest) p = bookedTotal rest p := by
          simp [bookedTotal, picked]
        rw [total, booked]
        refine ⟨by linarith, fun reaches => ?_⟩
        exfalso
        linarith

/-- Where the booked part of an accepted order's fills reaches what was asked,
the venue ended the order and nothing is left out. -/
theorem ended_of_asked (order : VenueOrder) {p : String → Prop} [DecidablePred p]
    (accepted : order.accepted = true) (reaches : order.asked ≤ bookedTotal order.fills p) :
    order.ended = true ∧ ∀ fill ∈ order.fills, p fill.tradeId := by
  obtain ⟨short, whole⟩ := all_of_bookedTotal (p := p) order.positive
  refine ⟨?_, whole (le_trans order.within reaches)⟩
  by_contra open_
  have resting : order.stage = .resting := by
    unfold VenueOrder.accepted at accepted
    unfold VenueOrder.ended at open_
    cases stage : order.stage <;> rw [stage] at accepted open_ <;>
      first
      | rfl
      | exact absurd accepted (by decide)
      | exact absurd rfl open_
  have unfinished := order.unfinished resting
  linarith

theorem bookedTotal_all {fills : List FillReport} {p : String → Prop} [DecidablePred p]
    (all : ∀ fill ∈ fills, p fill.tradeId) : bookedTotal fills p = fillTotal fills := by
  simp only [bookedTotal]
  congr 1
  rw [List.filter_eq_self]
  intro fill member
  simpa using all fill member

end VenueOrder

end Tickwright.Hyperliquid
