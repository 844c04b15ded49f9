/-
# Hyperliquid.Oids -- where a working saga gets its oid

The oid enters a saga only on a status report, and a fill moves a saga into a
working state as well.  So a queue is harmless exactly when every fill in it
comes behind something that settles the question (`Cleared`): an oid already on
the saga, an ack that carries one, a report that ends the saga, or a fill that
completes it on its own.

Nothing here needs the venue to be honest.  Every `LIVE` the adapter publishes
carries an oid, so what remains is one step of the reconciler, the replay of a
fill (`InOrder`): `_adopt` leaves the `LIVE` of a record out when it has fills,
and with it the oid (`replay_leaves_no_oid`).  The queue a restart finds may be
empty, as over the in-memory bus, or any redelivered part of it.
-/
import Tickwright.Hyperliquid.Races

namespace Tickwright.Hyperliquid

open Tickwright.Domain Tickwright.Engine Tickwright.Theory

set_option autoImplicit false

variable {config : Config} {order after : Order}

/-! ## A saga and a queue that keep the oid -/

/-- The oid is known, or no longer matters. -/
def OidKnown (order : Order) : Prop := order.venueOid.isSome = true ∨ order.isTerminal = true

instance (order : Order) : Decidable (OidKnown order) := inferInstanceAs (Decidable (_ ∨ _))

/-- What a saga keeps: working, acked or booked, it knows its oid. -/
structure Oided (order : Order) : Prop where
  working : order.state.isWorking = true → order.venueOid.isSome = true
  acked : Reflects order .live → OidKnown order
  booked : ∀ tradeId, Booked order tradeId → OidKnown order
  ended : Reflects order .cancelled ∨ Reflects order .rejected ∨ Reflects order .failed →
    order.isTerminal = true
  signed : 0 ≤ order.cumQty

/-- A report that settles the question: an ack, an end, or a fill. -/
def Settling : ExecutionReport → Prop
  | .status report => report.status = .live ∨ report.status = .cancelled ∨
      report.status = .rejected ∨ report.status = .failed
  | .fill _ => True
  | .refused _ _ => False

/-- A report the saga may handle next: an ack carries an oid, and a fill comes
when the question is settled, or completes the order itself. -/
def Fits (asked : Decimal) (known : Prop) : ExecutionReport → Prop
  | .status report => report.status = .live → report.venueOid.isSome = true
  | .fill report => known ∨ asked ≤ report.quantity
  | .refused _ _ => True

/-- Every report of the queue fits behind the ones ahead of it. -/
def Cleared (asked : Decimal) (known : Prop) : List ExecutionReport → Prop
  | [] => True
  | report :: rest => Fits asked known report ∧ Cleared asked (known ∨ Settling report) rest

/-- Whether the question is settled once the queue is handled. -/
def SettledBy (known : Prop) (queue : List ExecutionReport) : Prop :=
  known ∨ ∃ report ∈ queue, Settling report

theorem Fits.mono {asked : Decimal} {known more : Prop} {report : ExecutionReport}
    (fits : Fits asked known report) (grows : known → more) : Fits asked more report := by
  cases report with
  | status report => exact fits
  | fill report => exact fits.imp_left grows
  | refused cloid symbol => trivial

theorem Cleared.mono {asked : Decimal} {known more : Prop} {queue : List ExecutionReport}
    (cleared : Cleared asked known queue) (grows : known → more) : Cleared asked more queue := by
  induction queue generalizing known more with
  | nil => trivial
  | cons report rest ih => exact ⟨cleared.1.mono grows, ih cleared.2 (Or.imp_left grows)⟩

theorem SettledBy.cons {known : Prop} {report : ExecutionReport} {rest : List ExecutionReport} :
    SettledBy known (report :: rest) ↔ SettledBy (known ∨ Settling report) rest := by
  unfold SettledBy
  simp only [List.mem_cons, exists_eq_or_imp, or_assoc]

theorem SettledBy.append {known : Prop} {queue : List ExecutionReport}
    (settled : SettledBy known queue) (more : List ExecutionReport) :
    SettledBy known (queue ++ more) :=
  settled.imp_right fun ⟨report, member, is⟩ => ⟨report, List.mem_append_left _ member, is⟩

theorem SettledBy.published (known : Prop) (queue : List ExecutionReport)
    {report : ExecutionReport} (settling : Settling report) :
    SettledBy known (queue ++ [report]) :=
  Or.inr ⟨report, List.mem_append_right _ List.mem_cons_self, settling⟩

/-- Put one report behind the queue. -/
theorem Cleared.put {asked : Decimal} {known : Prop} {queue : List ExecutionReport}
    {report : ExecutionReport} (cleared : Cleared asked known queue)
    (fits : Fits asked (SettledBy known queue) report) :
    Cleared asked known (queue ++ [report]) := by
  induction queue generalizing known with
  | nil =>
      refine ⟨fits.mono fun settled => ?_, trivial⟩
      rcases settled with known | ⟨_, member, _⟩
      · exact known
      · cases member
  | cons head rest ih => exact ⟨cleared.1, ih cleared.2 (fits.mono SettledBy.cons.mp)⟩

theorem Cleared.take {asked : Decimal} {known : Prop} {queue : List ExecutionReport}
    (cleared : Cleared asked known queue) (kept : ℕ) : Cleared asked known (queue.take kept) := by
  induction queue generalizing known kept with
  | nil => rw [List.take_nil]; trivial
  | cons head rest ih =>
      cases kept with
      | zero => trivial
      | succ kept => exact ⟨cleared.1, ih cleared.2 kept⟩

/-- A report already handled: the saga reflects what it settled. -/
def Spent (asked : Decimal) (known : Prop) (report : ExecutionReport) : Prop :=
  Fits asked known report ∧ (Settling report → known)

/-- Handled reports in front of a queue change nothing. -/
theorem Cleared.redelivered {asked : Decimal} {known : Prop} {spent queue : List ExecutionReport}
    (cleared : Cleared asked known queue) (before : ∀ report ∈ spent, Spent asked known report) :
    Cleared asked known (spent ++ queue) := by
  induction spent with
  | nil => exact cleared
  | cons head rest ih =>
      have tail := ih fun report member => before report (List.mem_cons_of_mem _ member)
      exact ⟨(before head List.mem_cons_self).1, tail.mono Or.inl⟩

/-! ## What one report does -/

theorem oidKnown_mono {report : ExecutionReport} {nowNs : Nanos}
    (absorbed : absorb order report nowNs = .ok after) (known : OidKnown order) :
    OidKnown after := by
  rcases known with some_ | terminal
  · left
    rcases absorb_ok absorbed with ⟨rfl, _⟩ | moved
    · exact some_
    · have did := moved.did
      cases report with
      | status report =>
          rw [did.2.2.2.2.2.1]
          cases report.venueOid with
          | none => exact some_
          | some oid => rfl
      | fill report => rw [did.2.2.2.2.1]; exact some_
      | refused cloid symbol => exact did.elim
  · exact Or.inr (terminal_mono absorbed terminal)

/-- **One report of a cleared queue** keeps the saga oided, and settles the
question where it should. -/
theorem Oided.absorb {report : ExecutionReport} {nowNs : Nanos} (oided : Oided order)
    (absorbed : Engine.absorb order report nowNs = .ok after)
    (fits : Fits order.quantity (OidKnown order) report) :
    Oided after ∧ (Settling report → OidKnown after) := by
  have keeps := @oidKnown_mono _ _ _ _ absorbed
  rcases absorb_ok absorbed with ⟨rfl, idle⟩ | moved
  · refine ⟨oided, fun settling => ?_⟩
    cases report with
    | status report =>
        rcases idle with finished | unmapped | seen
        · exact Or.inr finished
        · rcases settling with is | is | is | is <;> rw [is] at unmapped <;> cases unmapped
        · rcases settling with is | is | is | is
          · exact oided.acked (is ▸ seen)
          · exact Or.inr (oided.ended (Or.inl (is ▸ seen)))
          · exact Or.inr (oided.ended (Or.inr (Or.inl (is ▸ seen))))
          · exact Or.inr (oided.ended (Or.inr (Or.inr (is ▸ seen))))
    | fill report => exact oided.booked _ idle.2
    | refused cloid symbol => exact settling.elim
  · have terms := (absorb_terms absorbed).1
    have did := moved.did
    cases report with
    | refused cloid symbol => exact did.elim
    | status report =>
        obtain ⟨open_, maps, _, legal, state, oid, cum, applied⟩ := did
        have entered : Settling (.status report) → OidKnown after := by
          intro settling
          rcases settling with is | is | is | is
          · left
            rw [oid, Option.isSome_or]
            rw [fits is, Bool.true_or]
          all_goals right; unfold Order.isTerminal; rw [state, is]; rfl
        -- A status the saga reflects now is the one it entered, or one it reflected.
        have reflected : ∀ ending, Reflects after ending →
            ending = report.status ∨ Reflects order ending := by
          intro ending there
          unfold Reflects at there ⊢
          rw [terms.1, applied, Finset.mem_insert] at there
          rcases there with is | old
          · injection is with _ same; exact Or.inl same
          · exact Or.inr old
        refine ⟨⟨fun working => ?_, fun acked => ?_, fun tradeId booked => ?_, fun ends => ?_, ?_⟩,
          entered⟩
        · have live : report.status = .live := by
            rw [state] at working
            revert maps working
            cases report.status <;> decide
          rcases entered (Or.inl live) with some_ | finished
          · exact some_
          · unfold Order.isTerminal at finished; rw [state, live] at finished; cases finished
        · rcases reflected _ acked with is | old
          · exact entered (Or.inl is.symm)
          · exact keeps (oided.acked old)
        · exact keeps (oided.booked tradeId ((booked_status absorbed tradeId).mp booked))
        · have one : ∀ ending, OrderState.isTerminal ending = true → Reflects after ending →
              (Reflects order ending → order.isTerminal = true) → after.isTerminal = true := by
            intro ending finished there before
            rcases reflected ending there with is | old
            · unfold Order.isTerminal; rw [state, ← is]; exact finished
            · exact terminal_mono absorbed (before old)
          rcases ends with is | is | is
          · exact one _ rfl is fun old => oided.ended (Or.inl old)
          · exact one _ rfl is fun old => oided.ended (Or.inr (Or.inl old))
          · exact one _ rfl is fun old => oided.ended (Or.inr (Or.inr old))
        · rw [cum]; exact oided.signed
    | fill report =>
        obtain ⟨positive, _, legal, state, oid, cum, applied⟩ := did
        have known : OidKnown after := by
          rcases fits with known | whole
          · exact keeps known
          · right
            have reaches : order.quantity ≤ order.cumQty + report.quantity := by
              linarith [oided.signed]
            unfold Order.isTerminal
            rw [state, if_pos reaches]
            rfl
        refine ⟨⟨fun working => ?_, fun _ => known, fun _ _ => known, fun ends => ?_, ?_⟩,
          fun _ => known⟩
        · rcases known with some_ | finished
          · exact some_
          · unfold Order.isTerminal at finished
            exfalso
            revert working finished
            cases after.state <;> decide
        · refine terminal_mono absorbed (oided.ended ?_)
          unfold Reflects at ends ⊢
          rw [terms.1, applied] at ends
          simpa only [Finset.mem_insert, reduceCtorEq, false_or] using ends
        · rw [cum]; linarith [oided.signed]

/-! ## A track that keeps the oid -/

/-- Every `LIVE` this look may publish carries an oid. -/
def Look.Stamps : Look → Prop
  | .holding _ view | .replaying _ view _ => ∀ report, view.status = some report →
      report.status = .live → report.venueOid.isSome = true
  | .idle | .asked _ | .found .. | .gone _ => True

/-- The saga with everything queued for it, and whatever a crash makes of them. -/
structure Tracked (track : Track) : Prop where
  saga : Oided track.saga
  row : Oided track.row
  lags : track.row = track.saga ∨ (track.row.venueOid = track.saga.venueOid ∧
    track.row.isTerminal = false ∧ track.saga.isTerminal = false ∧
      track.row.quantity = track.saga.quantity)
  queue : Cleared track.saga.quantity (OidKnown track.saga) track.queue
  handled : ∀ report ∈ track.handled, Spent track.saga.quantity (OidKnown track.saga) report
  placement : ∀ oid totalSz published retries,
    track.placement = .filling oid totalSz published retries →
      SettledBy (OidKnown track.saga) track.queue
  looks : ∀ cycle, (track.looks cycle).Stamps

/-- **A step that leaves no working saga without its oid**: a replayed fill comes
behind something that settles the question, or completes the order itself. -/
def InOrder (track : Track) : Track.Step → Prop
  | .look cycle .replays _ => ∀ ref view fill rest,
      track.looks cycle = .replaying ref view (fill :: rest) →
        SettledBy (OidKnown track.saga) track.queue ∨ track.saga.quantity ≤ fill.quantity
  | _ => True

namespace Tracked

variable {track : Track}

/-- Publish one status. -/
theorem publishStatus (tracked : Tracked track) {report : OrderStatusReport}
    (stamped : report.status = .live → report.venueOid.isSome = true) :
    Tracked (track.publish [.status report]) :=
  ⟨tracked.saga, tracked.row, tracked.lags, tracked.queue.put stamped, tracked.handled,
    fun oid totalSz published retries is =>
      (tracked.placement oid totalSz published retries is).append _, tracked.looks⟩

/-- Publish fills behind something that settles the question. -/
theorem publishFills (tracked : Tracked track) (fills : List FillReport)
    (settled : SettledBy (OidKnown track.saga) track.queue) :
    Cleared track.saga.quantity (OidKnown track.saga) (track.queue ++ fills.map .fill) ∧
      SettledBy (OidKnown track.saga) (track.queue ++ fills.map .fill) := by
  have cleared := tracked.queue
  generalize track.queue = queue at cleared settled
  induction fills generalizing queue with
  | nil => rw [List.map_nil, List.append_nil]; exact ⟨cleared, settled⟩
  | cons head rest ih =>
      rw [List.map_cons, List.append_cons]
      exact ih _ (cleared.put (Or.inl settled)) (SettledBy.published _ _ trivial)

theorem returned (tracked : Tracked track) (nowNs : Nanos) : Tracked (track.returned nowNs) :=
  ⟨tracked.saga, tracked.saga, Or.inl rfl, tracked.queue, tracked.handled,
    fun _ _ _ _ is => (by cases is), tracked.looks⟩

theorem marked (tracked : Tracked track) {order : Order}
    (same : Order.SameSaga track.saga order) (nowNs : Nanos) :
    Tracked (track.marked order nowNs) := by
  have known : OidKnown order ↔ OidKnown track.saga := by
    unfold OidKnown
    rw [same.venueOid, SameSaga.isTerminal same]
  have oided : Oided order := by
    refine ⟨?_, ?_, ?_, ?_, ?_⟩
    · rw [same.state, same.venueOid]; exact tracked.saga.working
    · rw [SameSaga.reflects same, known]; exact tracked.saga.acked
    · intro tradeId
      rw [SameSaga.booked same, known]
      exact tracked.saga.booked tradeId
    · simp only [SameSaga.reflects same, SameSaga.isTerminal same]; exact tracked.saga.ended
    · rw [same.cumQty]; exact tracked.saga.signed
  refine ⟨oided, oided, Or.inl rfl, ?_, ?_, ?_, tracked.looks⟩
  · show Cleared order.quantity (OidKnown order) track.queue
    rw [same.quantity]
    exact tracked.queue.mono known.mpr
  · intro report member
    obtain ⟨fits, settles⟩ := tracked.handled report member
    refine ⟨?_, fun settling => known.mpr (settles settling)⟩
    show Fits order.quantity (OidKnown order) report
    rw [same.quantity]
    exact fits.mono known.mpr
  · intro oid totalSz published retries is
    exact (tracked.placement oid totalSz published retries is).imp_left known.mpr

theorem setLook (tracked : Tracked track) {cycle : Cycle} {look : Look} (stamps : look.Stamps) :
    Tracked (track.setLook cycle look) :=
  ⟨tracked.saga, tracked.row, tracked.lags, tracked.queue, tracked.handled, tracked.placement,
    fun c => by
      show (Function.update track.looks cycle look c).Stamps
      rw [Function.update_apply]
      split
      · exact stamps
      · exact tracked.looks c⟩

theorem aside (tracked : Tracked track) (wait : Option (Decimal × Nanos))
    (absence : Reconciler.Absence) :
    Tracked { track with shrunkFills := wait, absence := absence } :=
  ⟨tracked.saga, tracked.row, tracked.lags, tracked.queue, tracked.handled, tracked.placement,
    tracked.looks⟩

/-- **A replayed fill.** -/
theorem replayed (tracked : Tracked track) {cycle : Cycle} {look : Look} {fill : FillReport}
    (stamps : look.Stamps)
    (order : SettledBy (OidKnown track.saga) track.queue ∨ track.saga.quantity ≤ fill.quantity) :
    Tracked ((track.publish [Reconciler.replica fill]).setLook cycle look) := by
  have fits : Fits track.saga.quantity (SettledBy (OidKnown track.saga) track.queue)
      (Reconciler.replica fill) := order
  have settling : Settling (Reconciler.replica fill) := trivial
  have read : Tracked (track.publish [Reconciler.replica fill]) :=
    ⟨tracked.saga, tracked.row, tracked.lags, tracked.queue.put fits, tracked.handled,
      fun _ _ _ _ _ => SettledBy.published _ _ settling, tracked.looks⟩
  exact read.setLook stamps

theorem placementStep (tracked : Tracked track) {event : Track.PlacementEvent} {nowNs : Nanos}
    {after : Track} (stepped : track.placementStep event nowNs = some after) : Tracked after := by
  unfold Track.placementStep at stepped
  split at stepped
  · cases refused : track.venue.refuse false with
    | none => rw [refused] at stepped; cases stepped
    | some venue =>
        rw [refused] at stepped
        cases stepped
        have moved : Tracked { track with venue := venue } :=
          ⟨tracked.saga, tracked.row, tracked.lags, tracked.queue, tracked.handled,
            tracked.placement, tracked.looks⟩
        exact (moved.publishStatus fun is => by cases is).returned nowNs
  · split at stepped
    · cases stepped; exact (tracked.publishStatus fun _ => rfl).returned nowNs
    · cases stepped
  · split at stepped
    · cases stepped
      have acked : Tracked (track.publish
          [track.status .live (some track.venue.oid) none nowNs]) :=
        tracked.publishStatus fun _ => rfl
      exact ⟨acked.saga, acked.row, acked.lags, acked.queue, acked.handled,
        fun _ _ _ _ _ => SettledBy.published _ _ (Or.inl rfl), acked.looks⟩
    · cases stepped
  · split at stepped
    · cases stepped; exact (tracked.publishStatus fun is => by cases is).returned nowNs
    · cases stepped
  · cases stepped
    rename_i refused out
    cases refused with
    | false =>
        have same : track.publish [] = track := by
          unfold Track.publish
          rw [List.append_nil]
        rw [show (if false = true then [ExecutionReport.refused track.saga.cloid track.saga.symbol]
          else []) = [] from rfl, same]
        exact tracked.returned nowNs
    | true =>
        refine ⟨tracked.saga, tracked.saga, Or.inl rfl, tracked.queue.put trivial, tracked.handled,
          fun _ _ _ _ is => (by cases is), tracked.looks⟩
  · rename_i oid totalSz published retries filling
    cases stepped
    have settled := tracked.placement _ _ _ _ filling
    let fresh := track.venue.fills.filter fun fill =>
      fill.tradeId ∉ published.map FillReport.tradeId
    obtain ⟨cleared, still⟩ := tracked.publishFills fresh settled
    have read : Tracked (track.publish (fresh.map .fill)) :=
      ⟨tracked.saga, tracked.row, tracked.lags, cleared, tracked.handled, fun _ _ _ _ _ => still,
        tracked.looks⟩
    unfold Track.readFills
    dsimp only
    split
    · split
      · have stamped : (endShrunk track.saga.cloid track.saga.symbol none nowNs).status = .live →
            (endShrunk track.saga.cloid track.saga.symbol none nowNs).venueOid.isSome = true :=
          fun is => by cases is
        have ended := (read.publishStatus stamped).returned nowNs
        exact ⟨ended.saga, ended.row, ended.lags, ended.queue, ended.handled, ended.placement,
          ended.looks⟩
      · exact read.returned nowNs
    · exact ⟨read.saga, read.row, read.lags, read.queue, read.handled, fun _ _ _ _ _ => still,
        read.looks⟩
  · cases stepped
    exact tracked.returned nowNs
  · cases stepped

theorem cancelStep (tracked : Tracked track) {event : Track.CancelEvent} {nowNs : Nanos}
    {after : Track} (stepped : track.cancelStep event nowNs = some after) : Tracked after := by
  have frame : ∀ venue out verdicts, Tracked
      { track with venue := venue, cancelsOut := out, verdicts := verdicts } :=
    fun _ _ _ => ⟨tracked.saga, tracked.row, tracked.lags, tracked.queue, tracked.handled,
      tracked.placement, tracked.looks⟩
  cases event with
  | requests signalId =>
      simp only [Track.cancelStep, Option.map_eq_some_iff] at stepped
      obtain ⟨order, requested, rfl⟩ := stepped
      exact tracked.marked (Order.requestCancel_sameSaga requested) nowNs
  | requestsAll signalId =>
      simp only [Track.cancelStep, Option.map_eq_some_iff] at stepped
      obtain ⟨order, requested, rfl⟩ := stepped
      exact tracked.marked (Order.requestCancelAll_sameSaga requested) nowNs
  | operatorCancels =>
      cases stepped
      exact tracked.marked (Order.markOperatorCancel_sameSaga track.saga nowNs) nowNs
  | adjudicates =>
      simp only [Track.cancelStep] at stepped
      split at stepped
      · cases stepped
      · cases finished : track.venue.finish .cancelled with
        | none => rw [finished] at stepped; cases stepped; exact frame _ _ _
        | some venue => rw [finished] at stepped; cases stepped; exact frame _ _ _
  | unsent =>
      simp only [Track.cancelStep] at stepped
      split at stepped
      · cases stepped
      · cases stepped; exact frame _ _ _
  | answers =>
      simp only [Track.cancelStep] at stepped
      split at stepped
      · cases stepped
      · rename_i rest _
        cases stepped
        exact (frame track.venue track.cancelsOut rest).publishStatus fun is => by cases is
      · cases stepped; exact frame _ _ _
  | unanswered =>
      simp only [Track.cancelStep] at stepped
      split at stepped
      · cases stepped
      · cases stepped; exact frame _ _ _

/-- A found record's status carries its oid. -/
theorem stamps_found (ref : OrderRef) (record : OrderRecord)
    (seen current : Option (Decimal × Nanos)) (fills : List FillReport) (nowNs : Nanos) :
    (Look.holding ref (foundView config ref record seen current fills nowNs).1).Stamps := by
  intro report there _
  simp only [foundView] at there
  split at there
  · split at there <;> cases there <;> rfl
  · cases there; rfl

theorem lookStep (tracked : Tracked track) {cycle : Cycle} {event : Track.LookEvent}
    {nowNs : Nanos} {after : Track} (order : InOrder track (.look cycle event nowNs))
    (stepped : track.lookStep config cycle event nowNs = some after) : Tracked after := by
  unfold Track.lookStep at stepped
  split at stepped
  · split at stepped
    · cases stepped; exact tracked.setLook trivial
    · cases stepped
  · have popped := tracked.aside none track.absence
    split at stepped
    · cases stepped; exact popped.setLook fun _ there => by cases there
    · cases stepped; exact popped.setLook trivial
    · split at stepped
      · cases stepped; exact popped.setLook fun _ there => by cases there
      · cases stepped; exact popped.setLook trivial
  · cases stepped
    exact (tracked.aside _ track.absence).setLook (stamps_found _ _ _ _ _ _)
  · cases stepped
    exact tracked.setLook fun _ there => by cases there
  · cases stepped; exact tracked.setLook trivial
  · cases stepped; exact tracked.setLook trivial
  · cases stepped; exact tracked.setLook trivial
  · rename_i ref view here
    have stamps := tracked.looks cycle
    rw [here] at stamps
    dsimp only at stepped
    have ruled := tracked.aside track.shrunkFills (track.opensWith config cycle view nowNs).2
    cases opens : (track.opensWith config cycle view nowNs).1 with
    | none => simp only [opens] at stepped; cases stepped; exact ruled.setLook trivial
    | some opening =>
        simp only [opens] at stepped
        cases opening with
        | failed report =>
            cases stepped
            refine (ruled.publishStatus fun is => ?_).setLook trivial
            have failed : report.status = .failed := by
              cases cycle with
              | inflight =>
                  simp only [Track.opensWith] at opens
                  rw [(Reconciler.inflightOpening_failed (Prod.ext opens rfl)).2.2]
                  rfl
              | startup =>
                  simp only [Track.opensWith, Option.some.injEq] at opens
                  rw [(Reconciler.opening_failed opens).2.2.2]
                  rfl
              | openOrders =>
                  simp only [Track.opensWith, Option.some.injEq] at opens
                  rw [(Reconciler.opening_failed opens).2.2.2]
                  rfl
            rw [failed] at is
            cases is
        | replay bridge =>
            cases stepped
            have bridged : bridge = if track.saga.state = .pending then
                some (Reconciler.submittedBridge track.saga nowNs) else none := by
              cases cycle with
              | inflight =>
                  simp only [Track.opensWith] at opens
                  exact Reconciler.inflightOpening_replay (Prod.ext opens rfl)
              | startup =>
                  simp only [Track.opensWith, Option.some.injEq] at opens
                  exact Reconciler.opening_replay opens
              | openOrders =>
                  simp only [Track.opensWith, Option.some.injEq] at opens
                  exact Reconciler.opening_replay opens
            rw [bridged]
            split
            · exact (ruled.publishStatus fun is => by cases is).setLook stamps
            · refine setLook ?_ stamps
              have same : ({ track with
                  absence := (track.opensWith config cycle view nowNs).2 }.publish
                    ((Option.toList (none : Option OrderStatusReport)).map .status)) =
                  { track with absence := (track.opensWith config cycle view nowNs).2 } := by
                unfold Track.publish
                simp only [Option.toList_none, List.map_nil, List.append_nil]
              rw [same]
              exact ruled
  · rename_i ref view fill rest here
    have stamps := tracked.looks cycle
    rw [here] at stamps
    cases stepped
    exact tracked.replayed stamps (order ref view fill rest here)
  · rename_i ref view here
    have stamps := tracked.looks cycle
    rw [here] at stamps
    dsimp only at stepped
    cases stepped
    cases closes : Reconciler.closing config.reconcile track.saga view track.lastEventNs
        track.absence nowNs with
    | mk report absence =>
        have ruled := tracked.aside track.shrunkFills absence
        cases report with
        | none =>
            refine setLook ?_ trivial
            have same : ({ track with absence := absence }.publish
                ((Option.toList (none : Option OrderStatusReport)).map .status)) =
                { track with absence := absence } := by
              unfold Track.publish
              simp only [Option.toList_none, List.map_nil, List.append_nil]
            rw [same]
            exact ruled
        | some report =>
            refine setLook (ruled.publishStatus fun is => ?_) trivial
            rcases Reconciler.closing_some closes with ⟨_, _, rfl⟩ | ⟨status, there, _, rfl⟩
            · have never : (Reconciler.resolveGhost track.saga nowNs).status ≠ .live := by
                unfold Reconciler.resolveGhost Reconciler.verdict Reconciler.ghostStatus
                split
                · exact fun is => by cases is
                · split <;> exact fun is => by cases is
              exact absurd is never
            · exact stamps status there is
  · cases stepped

theorem dispatched (tracked : Tracked track) {nowNs : Nanos} {after : Track}
    (stepped : track.dispatch nowNs = some after) : Tracked after := by
  have cleared := tracked.queue
  unfold Track.dispatch at stepped
  split at stepped
  · cases stepped
  · rename_i report rest next
    rw [next] at cleared
    split at stepped
    · cases stepped
      exact ⟨tracked.saga, tracked.row, tracked.lags, tracked.queue, tracked.handled,
        tracked.placement, tracked.looks⟩
    · rename_i moved absorbed
      cases stepped
      have quantity := (absorb_terms absorbed).1.2.2.2.1
      have keeps := oidKnown_mono absorbed
      obtain ⟨oided, settled⟩ := tracked.saga.absorb absorbed cleared.1
      refine ⟨oided, ?_, ?_, ?_, ?_, ?_, tracked.looks⟩
      · show Oided (if moved = track.saga then track.row else moved)
        split
        · exact tracked.row
        · exact oided
      · show (if moved = track.saga then track.row else moved) = moved ∨ _
        split
        · rename_i same
          show track.row = moved ∨ track.row.venueOid = moved.venueOid ∧ _
          rw [same]
          exact tracked.lags
        · exact Or.inl rfl
      · show Cleared moved.quantity (OidKnown moved) rest
        rw [quantity]
        exact cleared.2.mono fun either => either.elim keeps settled
      · intro old member
        show Spent moved.quantity (OidKnown moved) old
        rw [quantity]
        rcases List.mem_append.mp member with earlier | new
        · obtain ⟨fits, spent⟩ := tracked.handled old earlier
          exact ⟨fits.mono keeps, fun settling => keeps (spent settling)⟩
        · rw [List.mem_singleton.mp new]
          exact ⟨cleared.1.mono keeps, settled⟩
      · intro oid totalSz published retries is
        have before := tracked.placement oid totalSz published retries is
        rw [next, SettledBy.cons] at before
        exact before.imp_left fun either => either.elim keeps settled

/-- A restart on the row, over whatever the bus redelivers. -/
theorem crashed (tracked : Tracked track) (redelivered kept : ℕ) :
    Tracked (track.crash redelivered kept) := by
  have known : OidKnown track.saga → OidKnown track.row := by
    rcases tracked.lags with same | ⟨oid, rowOpen, sagaOpen, _⟩
    · rw [same]; exact id
    · unfold OidKnown
      rw [oid, rowOpen, sagaOpen]
      exact id
  have quantity : track.row.quantity = track.saga.quantity := by
    rcases tracked.lags with same | lagging
    · rw [same]
    · exact lagging.2.2.2
  have spent : ∀ report ∈ track.handled,
      Spent track.row.quantity (OidKnown track.row) report := by
    intro report member
    obtain ⟨fits, before⟩ := tracked.handled report member
    rw [quantity]
    exact ⟨fits.mono known, fun settling => known (before settling)⟩
  refine ⟨tracked.row, tracked.row, Or.inl rfl, ?_, spent, fun _ _ _ _ is => (by cases is),
    fun _ => trivial⟩
  refine Cleared.take (Cleared.redelivered ?_ fun report member =>
    spent report (List.mem_of_mem_drop member)) kept
  show Cleared track.row.quantity (OidKnown track.row) track.queue
  rw [quantity]
  exact tracked.queue.mono known

/-- **Every step that replays fills in order keeps a track.** -/
theorem step (tracked : Tracked track) {step : Track.Step} {after : Track}
    (order : InOrder track step) (stepped : track.step config step = some after) :
    Tracked after := by
  cases step with
  | crashes redelivered kept => cases stepped; exact tracked.crashed redelivered kept
  | venue event =>
      simp only [Track.step] at stepped
      split at stepped
      · cases stepped
      · have moved : ∀ venue, Tracked { track with venue := venue } := fun _ =>
          ⟨tracked.saga, tracked.row, tracked.lags, tracked.queue, tracked.handled,
            tracked.placement, tracked.looks⟩
        unfold Track.venueStep at stepped
        split at stepped
        · split at stepped
          · cases stepped
          · rw [Option.map_eq_some_iff] at stepped
            obtain ⟨venue, _, rfl⟩ := stepped
            exact moved venue
        · rw [Option.map_eq_some_iff] at stepped
          obtain ⟨venue, _, rfl⟩ := stepped
          exact moved venue
  | placement event nowNs =>
      simp only [Track.step] at stepped
      split at stepped
      · cases stepped
      · exact tracked.placementStep stepped
  | cancel event nowNs =>
      simp only [Track.step] at stepped
      split at stepped
      · cases stepped
      · exact tracked.cancelStep stepped
  | look cycle event nowNs =>
      simp only [Track.step] at stepped
      split at stepped
      · cases stepped
      · exact tracked.lookStep order stepped
  | clears =>
      simp only [Track.step] at stepped
      split at stepped
      · cases stepped
      · split at stepped
        · cases stepped
          exact ⟨tracked.saga, tracked.row, tracked.lags, tracked.queue, tracked.handled,
            tracked.placement, tracked.looks⟩
        · cases stepped
  | dispatches nowNs =>
      simp only [Track.step] at stepped
      split at stepped
      · cases stepped
      · exact tracked.dispatched stepped

end Tracked

/-- A placement opens a track with nothing booked and no ack. -/
theorem opened_tracked (cloid : Cloid) (signal : PlaceSignal) (quantity : Decimal)
    (price : Option Decimal) (basis : Option Basis) (nowNs : Nanos) (positive : 0 < quantity) :
    Tracked
      (Track.opened (approvedOrder cloid signal quantity price basis nowNs) positive nowNs) := by
  have saga : Oided (submit (approvedOrder cloid signal quantity price basis nowNs) nowNs) := by
    have applied : (submit (approvedOrder cloid signal quantity price basis nowNs)
        nowNs).appliedEventIds = {EventId.state cloid .submitted} := by
      show insert _ ∅ = _
      rw [Finset.insert_empty]
      rfl
    refine ⟨fun working => (by cases working), fun acked => ?_, fun tradeId booked => ?_,
      fun ends => ?_, le_refl _⟩
    · unfold Reflects at acked
      rw [applied, Finset.mem_singleton] at acked
      injection acked with _ clash
      cases clash
    · unfold Booked at booked
      rw [applied, Finset.mem_singleton] at booked
      cases booked
    · unfold Reflects at ends
      rw [applied] at ends
      simp only [Finset.mem_singleton, EventId.state.injEq, reduceCtorEq, and_false, or_self]
        at ends
  have row : Oided (approvedOrder cloid signal quantity price basis nowNs) := by
    refine ⟨fun working => (by cases working), fun acked => absurd acked (Finset.notMem_empty _),
      fun _ booked => absurd booked (Finset.notMem_empty _), fun ends => ?_, le_refl _⟩
    rcases ends with is | is | is <;> exact absurd is (Finset.notMem_empty _)
  exact ⟨saga, row, Or.inr ⟨rfl, rfl, rfl, rfl⟩, trivial, fun _ member => (by cases member),
    fun _ _ _ _ is => (by cases is), fun _ => trivial⟩

/-! ## Every working saga knows its oid -/

/-- Every step of the run, on whichever order, replays fills in order. -/
def OrderedRun (config : Config) (labels : List Label) : Prop :=
  (Hyperliquid.desk config).Meets (fun desk label => ∀ cloid step track,
    label = .on cloid step → desk cloid = some track → InOrder track step)
    (fun _ => none) labels

/-- **Every working live saga knows its venue oid**, in every run that replays
fills in order, whatever the venue, the answers, the cycles and the crashes do. -/
theorem run_knows_oid {desk : Desk} {labels : List Label} (ordered : OrderedRun config labels)
    (ran : (Hyperliquid.desk config).run (fun _ => none) labels = some desk) {cloid : Cloid}
    {track : Track} (held : desk cloid = some track)
    (working : track.saga.state.isWorking = true) : track.saga.venueOid.isSome = true :=
  (desk_induct InOrder
    (fun cloid signal quantity price basis nowNs positive =>
      opened_tracked cloid signal quantity price basis nowNs positive)
    (fun tracked order stepped => tracked.step order stepped)
    (fun _ _ none_ => by cases none_) ordered ran cloid track held).saga.working working

namespace Sample

/-- The ack is booked, the venue fills a part, and the slow cycle heals it. -/
def healed : List Label :=
  landed ++
    [.on "0x01" (.placement .resting 2), .on "0x01" (.dispatches 3),
      .on "0x01" (.venue (.fills (fillOf "1" 2))),
      .on "0x01" (.look .openOrders .asks 4), .on "0x01" (.look .openOrders .recordReturns 5),
      .on "0x01" (.look .openOrders .fillsReturn 6), .on "0x01" (.look .openOrders .opens 7),
      .on "0x01" (.look .openOrders .replays 8), .on "0x01" (.look .openOrders .closes 9),
      .on "0x01" (.dispatches 10)]

/-- Whether this step replays a fill only onto a saga that knows its oid. -/
def replaysKnown (desk : Desk) : Label → Bool
  | .on cloid (.look _ .replays _) => (desk cloid).all fun track => decide (OidKnown track.saga)
  | _ => true

theorem healed_ordered : OrderedRun live healed := by
  have checked : (Hyperliquid.desk live).checks replaysKnown (fun _ => none) healed = true := by
    decide +kernel
  refine Machine.meets_of_checks ?_ checked
  intro desk label is cloid step track same held
  subst same
  cases step with
  | look cycle event nowNs =>
      cases event with
      | replays =>
          simp only [replaysKnown, held, Option.all_some] at is
          exact fun _ _ _ _ _ => Or.inl (Or.inl (of_decide_eq_true is))
      | _ => trivial
  | _ => trivial

theorem healed_oid : ∃ desk track,
    (Hyperliquid.desk live).run (fun _ => none) healed = some desk ∧ desk "0x01" = some track ∧
      track.saga.state = .partiallyFilled ∧ track.saga.venueOid.isSome = true := by
  have shown : shows healed "0x01" (fun track =>
      decide (track.saga.state = .partiallyFilled)) = true := by decide +kernel
  obtain ⟨desk, track, ran, held, is⟩ := shows_iff shown
  have part := of_decide_eq_true is
  refine ⟨desk, track, ran, held, part, run_knows_oid healed_ordered ran held ?_⟩
  rw [part]
  rfl

/-- The placement's answer is unreadable; the venue works the order and fills a
part; the fast cycle adopts it. -/
def adoptedPart : List Label :=
  landed ++
    [.on "0x01" (.placement (.nothing false) 2), .on "0x01" (.venue (.fills (fillOf "1" 2))),
      .on "0x01" (.look .inflight .asks 3), .on "0x01" (.look .inflight .recordReturns 4),
      .on "0x01" (.look .inflight .fillsReturn 5), .on "0x01" (.look .inflight .opens 6),
      .on "0x01" (.look .inflight .replays 7), .on "0x01" (.look .inflight .closes 8),
      .on "0x01" (.dispatches 9)]

/-- **An adopted partial fill leaves no oid**: the record was read with its oid,
and everything queued was handled. -/
theorem replay_leaves_no_oid : ∃ desk track,
    (Hyperliquid.desk live).run (fun _ => none) adoptedPart = some desk ∧
      desk "0x01" = some track ∧ track.saga.state = .partiallyFilled ∧
      track.saga.venueOid = none ∧ track.queue = [] := by
  have shown : shows adoptedPart "0x01" (fun track =>
      decide (track.saga.state = .partiallyFilled) && track.saga.venueOid.isNone &&
        track.queue.isEmpty) = true := by decide +kernel
  obtain ⟨desk, track, ran, held, is⟩ := shows_iff shown
  simp only [Bool.and_eq_true, decide_eq_true_eq, Option.isNone_iff_eq_none, List.isEmpty_iff]
    at is
  exact ⟨desk, track, ran, held, is.1.1, is.1.2, is.2⟩

end Sample

end Tickwright.Hyperliquid
