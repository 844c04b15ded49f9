/-
# Hyperliquid.Races -- which races lose fills, and which fault

Two results about every run of any number of orders, each beside the run that
shows why its condition is needed.

* `run_ends_whole`: off the defects `Sound` names, a saga that is terminal over
  an accepted order has booked every fill the venue holds for it.  The first of
  those defects is one line of the adapter: a cancel answered success ends the
  saga with no fills read (`cancel_loses_fills`).
* `run_never_faults`: off the defects `Clean` adds, no report is ever an illegal
  transition.  The first of those is the reconciler's: it replays fills and
  leaves `LIVE` out, and the placement's own ack then comes too late
  (`ack_after_replay_faults`).
-/
import Tickwright.Hyperliquid.Run

namespace Tickwright.Hyperliquid

open Tickwright.Domain Tickwright.Engine Tickwright.Theory VenueOrder

set_option autoImplicit false

variable {config : Config} {desk : Desk} {labels : List Label}

/-- Every step of the run, on whichever order, stays off the defects that lose
fills. -/
def SoundRun (config : Config) (labels : List Label) : Prop :=
  (Hyperliquid.desk config).Meets (fun desk label => ∀ cloid step track,
    label = .on cloid step → desk cloid = some track → Sound config track step)
    (fun _ => none) labels

/-- It stays off the defects that fault as well. -/
def CleanRun (config : Config) (labels : List Label) : Prop :=
  (Hyperliquid.desk config).Meets (fun desk label => ∀ cloid step track,
    label = .on cloid step → desk cloid = some track →
      Sound config track step ∧ Clean config track step)
    (fun _ => none) labels

/-! ## Sample orders -/

namespace Sample

/-- A buy of ten, the cloid of every signal its seq. -/
def live : Config where
  reconcile := { inflightMaxAttempts := 3, ghostGraceNs := 60, recentOrderProtectionNs := 30 }
  shrinkWaitNs := 30
  deriveCloid := fun signalId => if signalId.seq = 1 then "0x01" else "0x02"

def breakout : StrategyId := ⟨"breakout", by decide⟩

def buy : PlaceSignal where
  strategyId := breakout
  symbol := "BTC"
  seq := 1
  side := .buy
  quantity := 10
  orderType := .limit
  timeInForce := .gtc
  price := some 2

def fillOf (tradeId : String) (quantity : Decimal) : FillReport :=
  { cloid := "0x01", symbol := "BTC", tradeId := tradeId, quantity := quantity, price := 2 }

/-- The placement goes out and the venue takes it. -/
def landed : List Label :=
  [.place buy 10 (some 2) none 1, .on "0x01" (.venue (.accepts "77" 0))]

/-- What one order's track shows at the end of a run. -/
def shows (labels : List Label) (cloid : Cloid) (seen : Track → Bool) : Bool :=
  (((Hyperliquid.desk live).run (fun _ => none) labels).bind fun desk => desk cloid).any seen

theorem shows_iff {labels : List Label} {cloid : Cloid} {seen : Track → Bool}
    (shown : shows labels cloid seen = true) : ∃ desk track,
    (Hyperliquid.desk live).run (fun _ => none) labels = some desk ∧ desk cloid = some track ∧
      seen track = true := by
  unfold shows at shown
  rw [Option.any_eq_true] at shown
  obtain ⟨track, there, is⟩ := shown
  rw [Option.bind_eq_some_iff] at there
  obtain ⟨desk, ran, held⟩ := there
  exact ⟨desk, track, ran, held, is⟩

/-- A step that is plainly sound and clean. -/
def plain (track : Track) : Track.Step → Bool
  | .venue (.accepts _ _) => track.saga.state != .failed && track.queue.isEmpty
  | .placement .resting _ | .placement .filled _ =>
      track.queue.isEmpty && decide (track.saga.appliedEventIds =
        {EventId.state track.saga.cloid .submitted})
  | .look _ .opens _ | .look _ .closes _ | .cancel .answers _ => false
  | .crashes _ kept => kept == 0
  | _ => true

theorem plain_ok {track : Track} {step : Track.Step} (is : plain track step = true) :
    Sound live track step ∧ Clean live track step := by
  cases step with
  | venue event =>
      refine ⟨?_, trivial⟩
      cases event with
      | accepts oid timestampMs =>
          simp only [plain, Bool.and_eq_true, bne_iff_ne, List.isEmpty_iff] at is
          refine ⟨is.1, fun report member => ?_⟩
          rw [is.2] at member
          cases member
      | _ => trivial
  | placement event nowNs =>
      refine ⟨trivial, ?_⟩
      have unknown : track.queue.isEmpty = true ∧ track.saga.appliedEventIds =
          {EventId.state track.saga.cloid .submitted} → track.AckInOrder := by
        rintro ⟨empty, applied⟩
        rw [List.isEmpty_iff] at empty
        refine Or.inr (Or.inl fun tradeId known => ?_)
        rcases known with booked | ⟨report, member, _⟩
        · unfold Booked at booked
          rw [applied, Finset.mem_singleton] at booked
          cases booked
        · rw [empty] at member; cases member
      cases event with
      | resting => exact unknown (by simpa [plain] using is)
      | filled => exact unknown (by simpa [plain] using is)
      | _ => trivial
  | cancel event nowNs => cases event <;> first | exact ⟨trivial, trivial⟩ | cases is
  | look cycle event nowNs => cases event <;> first | exact ⟨trivial, trivial⟩ | cases is
  | clears => exact ⟨trivial, trivial⟩
  | dispatches nowNs => exact ⟨trivial, trivial⟩
  | crashes redelivered kept =>
      refine ⟨?_, trivial⟩
      show kept = 0
      simpa [plain] using is

theorem clean_of_plain {labels : List Label} (checked : (Hyperliquid.desk live).checks
      (fun desk label => match label with
        | .place .. => true
        | .on cloid step => (desk cloid).all fun track => plain track step)
      (fun _ => none) labels = true) : CleanRun live labels := by
  refine Machine.meets_of_checks ?_ checked
  intro desk label is cloid step track same held
  subst same
  simp only [held, Option.all_some] at is
  exact plain_ok is

/-- A whole life: the answer is `filled`, and its fills are read and booked. -/
def filledWhole : List Label :=
  landed ++
    [.on "0x01" (.venue (.fills (fillOf "1" 4))), .on "0x01" (.venue (.fills (fillOf "2" 6))),
      .on "0x01" (.placement .filled 2), .on "0x01" (.placement .readsFills 3),
      .on "0x01" (.dispatches 4), .on "0x01" (.dispatches 5), .on "0x01" (.dispatches 6)]

theorem filledWhole_clean : CleanRun live filledWhole := clean_of_plain (by decide +kernel)

end Sample

/-! ## No fill is lost -/

/-- **No fill is lost when a saga ends.**  In every run that stays off the
defects of `Sound`, a saga that is terminal over an accepted order carries the
whole size of the fills the venue holds for it. -/
theorem run_ends_whole (sound : SoundRun config labels)
    (ran : (Hyperliquid.desk config).run (fun _ => none) labels = some desk) {cloid : Cloid}
    {track : Track} (held : desk cloid = some track) (accepted : track.venue.accepted = true)
    (terminal : track.saga.isTerminal = true) : track.saga.cumQty = track.venue.total := by
  have meets : (Hyperliquid.desk config).Meets (fun desk label => ∀ cloid step track,
      label = .on cloid step → desk cloid = some track →
        Sound config track step ∧ (False → Clean config track step)) (fun _ => none) labels :=
    Machine.Meets.mono sound fun desk label ok cloid step track is there => ⟨ok cloid step track is there, False.elim⟩
  have settled := desk_settled meets ran cloid track held
  have along := settled.ahead.here
  exact along.1.whole_cum (along.1.ended terminal accepted).2

namespace Sample

theorem filledWhole_booked : ∃ desk track,
    (Hyperliquid.desk live).run (fun _ => none) filledWhole = some desk ∧
      desk "0x01" = some track ∧ track.saga.cumQty = track.venue.total := by
  have shown : shows filledWhole "0x01" (fun track =>
      track.venue.accepted && track.saga.isTerminal) = true := by decide +kernel
  obtain ⟨desk, track, ran, held, is⟩ := shows_iff shown
  rw [Bool.and_eq_true] at is
  have sound : SoundRun live filledWhole :=
    Machine.Meets.mono filledWhole_clean fun _ _ ok cloid step track same there =>
      (ok cloid step track same there).1
  exact ⟨desk, track, ran, held, run_ends_whole sound ran held is.1 is.2⟩

/-- Two of ten are filled when the cancel goes out and is answered success. -/
def cancelledPart : List Label :=
  landed ++
    [.on "0x01" (.placement .resting 2), .on "0x01" (.dispatches 3),
      .on "0x01" (.venue (.fills (fillOf "1" 2))),
      .on "0x01" (.cancel (.requests ⟨breakout, "BTC", 2⟩) 4),
      .on "0x01" (.cancel .adjudicates 5), .on "0x01" (.cancel .answers 6),
      .on "0x01" (.dispatches 7)]

/-- **A cancel's success loses fills.**  The saga ends `CANCELLED` with nothing
booked, over an order the venue filled two of. -/
theorem cancel_loses_fills : ∃ desk track,
    (Hyperliquid.desk live).run (fun _ => none) cancelledPart = some desk ∧
      desk "0x01" = some track ∧ track.venue.accepted = true ∧ track.saga.state = .cancelled ∧
      track.saga.cumQty = 0 ∧ track.venue.total = 2 := by
  have shown : shows cancelledPart "0x01" (fun track => track.venue.accepted &&
      decide (track.saga.state = .cancelled) && decide (track.saga.cumQty = 0) &&
      decide (track.venue.total = 2)) = true := by decide +kernel
  obtain ⟨desk, track, ran, held, is⟩ := shows_iff shown
  simp only [Bool.and_eq_true, decide_eq_true_eq] at is
  exact ⟨desk, track, ran, held, is.1.1.1, is.1.1.2, is.1.2, is.2⟩

end Sample

/-! ## No fact faults -/

/-- **True venue facts never fault the saga.**  In every run that stays off the
defects of `Sound` and `Clean`, no dispatched report raises, whatever the
interleaving. -/
theorem run_never_faults (clean : CleanRun config labels)
    (ran : (Hyperliquid.desk config).run (fun _ => none) labels = some desk) {cloid : Cloid}
    {track : Track} (held : desk cloid = some track) :
    track.fault = none ∧ ∀ report rest nowNs violation, track.queue = report :: rest →
      absorb track.saga report nowNs ≠ .error violation := by
  have meets : (Hyperliquid.desk config).Meets (fun desk label => ∀ cloid step track,
      label = .on cloid step → desk cloid = some track →
        Sound config track step ∧ (True → Clean config track step)) (fun _ => none) labels :=
    Machine.Meets.mono clean fun desk label ok cloid step track is there =>
      ⟨(ok cloid step track is there).1, fun _ => (ok cloid step track is there).2⟩
  have settled := desk_settled meets ran cloid track held
  refine ⟨settled.fault trivial, fun report rest nowNs violation next raised => ?_⟩
  have ahead := settled.ahead
  rw [next] at ahead
  have onward := ahead.2 nowNs
  rw [raised] at onward
  exact onward trivial

namespace Sample

theorem filledWhole_unfaulted : ∃ desk track,
    (Hyperliquid.desk live).run (fun _ => none) filledWhole = some desk ∧
      desk "0x01" = some track ∧ track.fault = none := by
  have shown : shows filledWhole "0x01" (fun _ => true) = true := by decide +kernel
  obtain ⟨desk, track, ran, held, _⟩ := shows_iff shown
  exact ⟨desk, track, ran, held, (run_never_faults filledWhole_clean ran held).1⟩

/-- While the placement's answer is out, the fast cycle reads a working record
with one fill, replays the fill and leaves the `LIVE` out. -/
def replayedFirst : List Label :=
  landed ++
    [.on "0x01" (.venue (.fills (fillOf "1" 2))),
      .on "0x01" (.look .inflight .asks 2), .on "0x01" (.look .inflight .recordReturns 3),
      .on "0x01" (.look .inflight .fillsReturn 4), .on "0x01" (.look .inflight .opens 5),
      .on "0x01" (.look .inflight .replays 6), .on "0x01" (.look .inflight .closes 7),
      .on "0x01" (.placement .resting 8), .on "0x01" (.dispatches 9), .on "0x01" (.dispatches 10)]

/-- **The placement's own ack faults the engine**: the replay moved the saga past
`LIVE` before the ack was handled. -/
theorem ack_after_replay_faults : ∃ desk track,
    (Hyperliquid.desk live).run (fun _ => none) replayedFirst = some desk ∧
      desk "0x01" = some track ∧
      track.fault = some (.illegalTransition .partiallyFilled .live "0x01") := by
  have shown : shows replayedFirst "0x01" (fun track => decide
      (track.fault = some (.illegalTransition .partiallyFilled .live "0x01"))) = true := by
    decide +kernel
  obtain ⟨desk, track, ran, held, is⟩ := shows_iff shown
  exact ⟨desk, track, ran, held, of_decide_eq_true is⟩

end Sample

end Tickwright.Hyperliquid
