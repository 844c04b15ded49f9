/-
# Engine.Saga -- what a raw report makes of one saga

`onExecutionReport` is a script over a whole process.  For arguments about one
order the part that decides is small: the saga the report reaches, and what the
report makes of it.  `absorb` is that part, and `onExecutionReport_absorb` says
the handler does exactly it: the handler faults where `absorb` raises, and where
the handler does not fault the cached saga is what `absorb` returns.

Every later argument reads a report through three facts:

* `absorb_ok`: an absorbed report left the saga alone (it was already reflected,
  or it moves no saga), or entered one new legal event;
* `absorb_status_ok`, `absorb_fill_ok`: when a report is absorbed at all;
* `absorb_terms`: whatever it did, the order's own terms stay.
-/
import Tickwright.Engine.HandlerSync
import Tickwright.Theory.Fifo

namespace Tickwright.Engine

open Tickwright.Domain Tickwright.Theory Tickwright.Store

set_option autoImplicit false

/-! ## Absorbing one report -/

/-- What `on_execution_report` makes of the saga the report reaches. -/
def absorb (order : Order) (report : ExecutionReport) (nowNs : Nanos) :
    Except InvariantViolation Order :=
  match report with
  | .status report =>
      if order.isTerminal then .ok order
      else
        match statusEvent order report nowNs with
        | none => .ok order
        | some event => (order.apply event).map fun advanced => advanced.getD order
  | .fill report =>
      (order.recordFill report.tradeId report.quantity report.price report.fee report.tsEvent
        nowNs report.reconciliation).map fun recorded => (recorded.map Prod.fst).getD order
  | .refused _ _ => .ok order

/-- The saga a report reaches. -/
def reaches : ExecutionReport → Cloid
  | .status report => report.cloid
  | .fill report => report.cloid
  | .refused cloid _ => cloid

/-- Whether a raw status maps to a saga move at all (`_apply_status`). -/
def mapsToMove : OrderState → Bool
  | .submitted | .live | .cancelled | .rejected | .failed => true
  | .pending | .partiallyFilled | .filled | .denied => false

theorem statusEvent_isSome (order : Order) (report : OrderStatusReport) (nowNs : Nanos) :
    (statusEvent order report nowNs).isSome = mapsToMove report.status := by
  unfold statusEvent
  cases report.status <;> rfl

/-- What one absorbed event did to a saga, under `report`. -/
structure Moved (order : Order) (report : ExecutionReport) (after : Order) : Prop where
  terms : (after.cloid, after.symbol, after.side, after.quantity, after.reduceOnly,
      after.createdTsNs, after.cancelRequested) =
    (order.cloid, order.symbol, order.side, order.quantity, order.reduceOnly,
      order.createdTsNs, order.cancelRequested)
  did : match report with
    | .status report =>
        order.isTerminal = false ∧ mapsToMove report.status = true ∧
        EventId.state order.cloid report.status ∉ order.appliedEventIds ∧
        order.state.legalTransition report.status = true ∧ after.state = report.status ∧
        after.venueOid = report.venueOid.or order.venueOid ∧ after.cumQty = order.cumQty ∧
        after.appliedEventIds =
          insert (EventId.state order.cloid report.status) order.appliedEventIds
    | .fill report =>
        0 < report.quantity ∧
        EventId.fill order.cloid report.tradeId ∉ order.appliedEventIds ∧
        order.state.legalTransition after.state = true ∧
        after.state = (if order.quantity ≤ order.cumQty + report.quantity then .filled
          else .partiallyFilled) ∧
        after.venueOid = order.venueOid ∧ after.cumQty = order.cumQty + report.quantity ∧
        after.appliedEventIds =
          insert (EventId.fill order.cloid report.tradeId) order.appliedEventIds
    | .refused _ _ => False

/-- Why an absorbed report left the saga alone. -/
def Idle (order : Order) : ExecutionReport → Prop
  | .status report => order.isTerminal = true ∨ mapsToMove report.status = false ∨
      EventId.state order.cloid report.status ∈ order.appliedEventIds
  | .fill report => 0 < report.quantity ∧
      EventId.fill order.cloid report.tradeId ∈ order.appliedEventIds
  | .refused _ _ => True

/-- **An absorbed report left the saga alone or entered one new legal event.** -/
theorem absorb_ok {order after : Order} {report : ExecutionReport} {nowNs : Nanos}
    (absorbed : absorb order report nowNs = .ok after) :
    (after = order ∧ Idle order report) ∨ Moved order report after := by
  cases report with
  | refused cloid symbol => cases absorbed; exact Or.inl ⟨rfl, trivial⟩
  | status report =>
      simp only [absorb] at absorbed
      by_cases terminal : order.isTerminal = true
      · rw [if_pos terminal] at absorbed
        cases absorbed
        exact Or.inl ⟨rfl, Or.inl terminal⟩
      · rw [if_neg terminal] at absorbed
        have open_ : order.isTerminal = false := by simpa using terminal
        have some_ := statusEvent_isSome order report nowNs
        cases mapped : statusEvent order report nowNs with
        | none =>
            rw [mapped] at absorbed some_
            cases absorbed
            exact Or.inl ⟨rfl, Or.inr (Or.inl some_.symm)⟩
        | some event =>
            simp only [mapped] at absorbed some_
            obtain ⟨keyed, state, oid, cum⟩ := statusEvent_eq_some mapped
            rcases order.apply_cases event with ⟨seen, h⟩ | ⟨_, _, h⟩ | ⟨fresh, legal, h⟩
            · rw [h] at absorbed
              cases absorbed
              rw [keyed] at seen
              exact Or.inl ⟨rfl, Or.inr (Or.inr seen)⟩
            · rw [h] at absorbed; cases absorbed
            · rw [h] at absorbed
              cases absorbed
              rw [keyed] at fresh
              rw [state] at legal
              refine Or.inr ⟨rfl, open_, some_.symm, fresh, legal, state, ?_, cum, ?_⟩
              · show event.venueOid.or order.venueOid = _
                rw [oid]
                cases report.venueOid <;> cases order.venueOid <;> rfl
              · show insert event.eventId order.appliedEventIds = _
                rw [keyed]
  | fill report =>
      simp only [absorb] at absorbed
      cases recorded : order.recordFill report.tradeId report.quantity report.price report.fee
          report.tsEvent nowNs report.reconciliation with
      | error violation => rw [recorded] at absorbed; cases absorbed
      | ok result =>
          rw [recorded] at absorbed
          obtain ⟨positive, ⟨rfl, seen⟩ | ⟨event, is, fresh, legal, rfl⟩⟩ :=
            Order.recordFill_cases recorded
          · cases absorbed
            exact Or.inl ⟨rfl, positive, seen⟩
          · cases absorbed
            subst is
            refine Or.inr ⟨rfl, positive, fresh, legal, ?_, ?_, rfl, rfl⟩
            · exact Order.fillEvent_state order report.tradeId report.quantity report.price
                report.fee report.tsEvent nowNs report.reconciliation
            · show order.venueOid.or order.venueOid = order.venueOid
              cases order.venueOid <;> rfl

/-! ## When a report is absorbed -/

/-- A status is absorbed by a terminal saga, where it maps to no move or is
already reflected, and wherever its transition is legal. -/
theorem absorb_status_ok {order : Order} {report : OrderStatusReport} (nowNs : Nanos)
    (lets : order.isTerminal = true ∨ mapsToMove report.status = false ∨
      EventId.state order.cloid report.status ∈ order.appliedEventIds ∨
      order.state.legalTransition report.status = true) :
    ∃ after, absorb order (.status report) nowNs = .ok after := by
  simp only [absorb]
  by_cases terminal : order.isTerminal = true
  · exact ⟨order, by rw [if_pos terminal]⟩
  · rw [if_neg terminal]
    have some_ := statusEvent_isSome order report nowNs
    cases mapped : statusEvent order report nowNs with
    | none => exact ⟨order, rfl⟩
    | some event =>
        rw [mapped] at some_
        obtain ⟨keyed, state, _, _⟩ := statusEvent_eq_some mapped
        rcases order.apply_cases event with ⟨_, h⟩ | ⟨fresh, illegal, _⟩ | ⟨_, _, h⟩
        · exact ⟨order, by simp only [h]; rfl⟩
        · rw [keyed] at fresh
          rw [state] at illegal
          rcases lets with yes | unmapped | seen | legal
          · exact absurd yes terminal
          · rw [unmapped] at some_; cases some_
          · exact absurd seen fresh
          · rw [legal] at illegal; cases illegal
        · exact ⟨order.enter event, by simp only [h]; rfl⟩

/-- A fill is legal in every state a sent, unfinished order can be in. -/
theorem fill_legal {state : OrderState} (sent : state = .submitted ∨ state.isWorking = true)
    {complete : Prop} [Decidable complete] :
    state.legalTransition (if complete then .filled else .partiallyFilled) = true := by
  by_cases c : complete
  · rw [if_pos c]; revert sent; cases state <;> decide
  · rw [if_neg c]; revert sent; cases state <;> decide

/-- A positive fill is absorbed where its trade is booked already, and in every
state a sent, unfinished order can be in. -/
theorem absorb_fill_ok {order : Order} {report : FillReport} (nowNs : Nanos)
    (positive : 0 < report.quantity)
    (lets : EventId.fill order.cloid report.tradeId ∈ order.appliedEventIds ∨
      order.state = .submitted ∨ order.state.isWorking = true) :
    ∃ after, absorb order (.fill report) nowNs = .ok after := by
  simp only [absorb, Order.recordFill, if_neg (not_le.mpr positive)]
  rcases order.apply_cases (order.fillEvent report.tradeId report.quantity report.price report.fee
      report.tsEvent nowNs report.reconciliation) with ⟨_, h⟩ | ⟨fresh, illegal, _⟩ | ⟨_, _, h⟩
  · exact ⟨order, by rw [h]; rfl⟩
  · exfalso
    rcases lets with seen | sent
    · exact fresh seen
    · rw [Order.fillEvent_state, fill_legal sent] at illegal
      cases illegal
  · exact ⟨_, by rw [h]; rfl⟩

/-! ## What no report touches -/

/-- **The order's own terms stay**, and what is booked stays booked. -/
theorem absorb_terms {order after : Order} {report : ExecutionReport} {nowNs : Nanos}
    (absorbed : absorb order report nowNs = .ok after) :
    (after.cloid = order.cloid ∧ after.symbol = order.symbol ∧ after.side = order.side ∧
      after.quantity = order.quantity ∧ after.reduceOnly = order.reduceOnly ∧
      after.createdTsNs = order.createdTsNs ∧ after.cancelRequested = order.cancelRequested) ∧
    order.appliedEventIds ⊆ after.appliedEventIds := by
  rcases absorb_ok absorbed with ⟨rfl, _⟩ | moved
  · exact ⟨⟨rfl, rfl, rfl, rfl, rfl, rfl, rfl⟩, subset_rfl⟩
  · refine ⟨by simpa only [Prod.mk.injEq] using moved.terms, ?_⟩
    have did := moved.did
    cases report with
    | status report => exact did.2.2.2.2.2.2.2 ▸ Finset.subset_insert _ _
    | fill report => exact did.2.2.2.2.2.2 ▸ Finset.subset_insert _ _
    | refused cloid symbol => exact did.elim

/-- A terminal saga stays as it is. -/
theorem absorb_of_isTerminal {order after : Order} {report : ExecutionReport} {nowNs : Nanos}
    (terminal : order.isTerminal = true) (absorbed : absorb order report nowNs = .ok after) :
    after = order := by
  rcases absorb_ok absorbed with ⟨rfl, _⟩ | moved
  · rfl
  · have did := moved.did
    cases report with
    | status report =>
        rw [did.1] at terminal
        cases terminal
    | fill report =>
        have legal := did.2.2.1
        rw [OrderState.legalTransition_of_isTerminal terminal] at legal
        cases legal
    | refused cloid symbol => exact did.elim

/-- A fill that was absorbed is booked. -/
theorem absorb_fill_booked {order after : Order} {report : FillReport} {nowNs : Nanos}
    (absorbed : absorb order (.fill report) nowNs = .ok after) :
    EventId.fill order.cloid report.tradeId ∈ after.appliedEventIds := by
  rcases absorb_ok absorbed with ⟨rfl, idle⟩ | moved
  · exact idle.2
  · rw [moved.did.2.2.2.2.2.2]
    exact Finset.mem_insert_self _ _

/-- A move-making status that was absorbed is reflected, or met a terminal saga. -/
theorem absorb_status_reflected {order after : Order} {report : OrderStatusReport}
    {nowNs : Nanos} (maps : mapsToMove report.status = true)
    (absorbed : absorb order (.status report) nowNs = .ok after) :
    EventId.state order.cloid report.status ∈ after.appliedEventIds ∨ after.isTerminal = true := by
  rcases absorb_ok absorbed with ⟨rfl, terminal | unmapped | seen⟩ | moved
  · exact Or.inr terminal
  · rw [maps] at unmapped; cases unmapped
  · exact Or.inl seen
  · rw [moved.did.2.2.2.2.2.2.2]
    exact Or.inl (Finset.mem_insert_self _ _)

/-! ## The cancel marker does not matter -/

/-- Reports meet a marked saga as they meet the unmarked one. -/
theorem absorb_sameSaga (order marked : Order) (report : ExecutionReport) (nowNs : Nanos)
    (same : Order.SameSaga order marked) :
    SameOutcome Order.SameSaga (absorb order report nowNs) (absorb marked report nowNs) := by
  have terms := same.terms
  simp only [Prod.mk.injEq] at terms
  have enters : ∀ event : OrderEvent, Order.SameSaga (order.enter event) (marked.enter event) := by
    intro event
    refine ⟨same.cloid, rfl, ?_, same.quantity, ?_, ?_, same.terms⟩
    · unfold Order.enter
      cases event.family <;> first | rfl | exact same.cumQty
    · show event.venueOid.or marked.venueOid = event.venueOid.or order.venueOid
      rw [same.venueOid]
    · show insert event.eventId marked.appliedEventIds = insert event.eventId order.appliedEventIds
      rw [same.appliedEventIds]
  have applies : ∀ event : OrderEvent,
      marked.apply event = .ok none ∧ order.apply event = .ok none ∨
      (∃ violation, marked.apply event = .error violation ∧ order.apply event = .error violation) ∨
      marked.apply event = .ok (some (marked.enter event)) ∧
        order.apply event = .ok (some (order.enter event)) := by
    intro event
    simp only [Order.apply, same.appliedEventIds, same.state, same.cloid]
    split
    · exact Or.inl ⟨rfl, rfl⟩
    · split
      · exact Or.inr (Or.inr ⟨rfl, rfl⟩)
      · exact Or.inr (Or.inl ⟨_, rfl, rfl⟩)
  cases report with
  | refused cloid symbol => exact same
  | status report =>
      have mapped : statusEvent marked report nowNs = statusEvent order report nowNs := by
        simp only [statusEvent, sagaEvent, same.cloid, same.venueOid, terms.1, terms.2.1,
          terms.2.2.1]
      have finished : marked.isTerminal = order.isTerminal := by
        simp only [Order.isTerminal, same.state]
      simp only [absorb, finished, mapped]
      by_cases terminal : order.isTerminal = true
      · simp only [if_pos terminal]
        exact same
      · simp only [if_neg terminal]
        cases statusEvent order report nowNs with
        | none => exact same
        | some event =>
            rcases applies event with ⟨m, o⟩ | ⟨_, m, o⟩ | ⟨m, o⟩
            · simp only [m, o]; exact same
            · simp only [m, o]; trivial
            · simp only [m, o]; exact enters event
  | fill report =>
      have event : marked.fillEvent report.tradeId report.quantity report.price report.fee
          report.tsEvent nowNs report.reconciliation =
          order.fillEvent report.tradeId report.quantity report.price report.fee report.tsEvent
            nowNs report.reconciliation := by
        simp only [Order.fillEvent, same.cloid, same.venueOid, same.cumQty, same.quantity, terms.1,
          terms.2.1, terms.2.2.1]
      simp only [absorb, Order.recordFill, event]
      by_cases positive : report.quantity ≤ 0
      · simp only [if_pos positive]; trivial
      · simp only [if_neg positive]
        rcases applies (order.fillEvent report.tradeId report.quantity report.price report.fee
            report.tsEvent nowNs report.reconciliation) with ⟨m, o⟩ | ⟨_, m, o⟩ | ⟨m, o⟩
        · simp only [m, o]; exact same
        · simp only [m, o]; trivial
        · simp only [m, o]; exact enters _

/-! ## The handler does exactly this -/

theorem getOrder_play_commitStatus (process : Process) (order : Order) (event : OrderEvent)
    (nowNs : Nanos) :
    (process.play (commitStatus process.memory order event nowNs)).memory.cache.getOrder
      order.cloid = some order := by
  have last : (process.play (commitStatus process.memory order event nowNs)).memory =
      (process.memory.remember order).project order nowNs := rfl
  rw [last]
  exact Dict.get_set_self ..

/-- **The handler faults where `absorb` raises; where it does not fault, the saga
it leaves is what `absorb` returns.**  A fill's ledger half may still refuse
(`fault`), and then nothing of it is durable. -/
theorem onExecutionReport_absorb {config : Config} {process : Process} {order : Order}
    {report : ExecutionReport} {nowNs : Nanos}
    (held : process.memory.cache.getOrder (reaches report) = some order)
    (keyed : order.cloid = reaches report) :
    let script := onExecutionReport config process.memory process.store report nowNs
    (∀ violation, absorb order report nowNs = .error violation →
      script.fault = some (.invariant violation) ∧ script.effects = []) ∧
    (∀ after, absorb order report nowNs = .ok after → script.fault = none →
      (process.play script.effects).memory.cache.getOrder (reaches report) = some after) := by
  cases report with
  | refused cloid symbol =>
      refine ⟨?_, ?_⟩
      · intro violation raised; cases raised
      · intro after absorbed _; cases absorbed; exact held
  | status report =>
      simp only [reaches] at held keyed
      simp only [onExecutionReport, onStatus, held, absorb, reaches]
      by_cases terminal : order.isTerminal = true
      · simp only [if_pos terminal]
        refine ⟨?_, ?_⟩
        · intro violation raised; cases raised
        · intro after absorbed _; cases absorbed; exact held
      · simp only [if_neg terminal]
        cases statusEvent order report nowNs with
        | none =>
            refine ⟨?_, ?_⟩
            · intro violation raised; cases raised
            · intro after absorbed _; cases absorbed; exact held
        | some event =>
            dsimp only
            rcases order.apply_cases event with ⟨_, h⟩ | ⟨_, _, h⟩ | ⟨_, _, h⟩ <;> simp only [h]
            · refine ⟨?_, ?_⟩
              · intro violation raised; cases raised
              · intro after absorbed _; cases absorbed; exact held
            · refine ⟨?_, ?_⟩
              · intro violation raised; cases raised; exact ⟨rfl, rfl⟩
              · intro after absorbed; cases absorbed
            · refine ⟨?_, ?_⟩
              · intro violation raised; cases raised
              · intro after absorbed _
                cases absorbed
                have there := getOrder_play_commitStatus process (order.enter event) event nowNs
                rw [Order.enter_cloid, keyed] at there
                exact there
  | fill report =>
      simp only [reaches] at held keyed
      simp only [onExecutionReport, onFill, held, absorb, reaches]
      cases recorded : order.recordFill report.tradeId report.quantity report.price report.fee
          report.tsEvent nowNs report.reconciliation with
      | error violation =>
          refine ⟨?_, ?_⟩
          · intro other raised; cases raised; exact ⟨rfl, rfl⟩
          · intro after absorbed; cases absorbed
      | ok result =>
          obtain ⟨_, ⟨rfl, _⟩ | ⟨event, is, _, _, rfl⟩⟩ := Order.recordFill_cases recorded
          · refine ⟨?_, ?_⟩
            · intro violation raised; cases raised
            · intro after absorbed _; cases absorbed; exact held
          · refine ⟨?_, ?_⟩
            · intro violation raised; cases raised
            · intro after absorbed clean
              cases absorbed
              dsimp only at clean ⊢
              cases committed : checkpointFill config (process.memory.remember (order.enter event))
                  process.store (order.enter event) report.tradeId report.quantity report.price
                  (order.enter event).cumQty report.fee nowNs with
              | error fault => rw [committed] at clean; cases clean
              | ok effects =>
                  simp only [checkpointFill] at committed
                  split at committed
                  · cases committed
                  · split at committed
                    · cases committed
                    · obtain ⟨folded, changes, _, rfl⟩ := commitFolds_cases committed
                      dsimp only
                      rw [play_fill]
                      show ((process.memory.remember _).project (order.enter event)
                        nowNs).cache.getOrder _ = _
                      rw [← keyed]
                      exact Dict.get_set_self ..

end Tickwright.Engine
