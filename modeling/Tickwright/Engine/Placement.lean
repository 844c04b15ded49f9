/-
# Engine.Placement -- an order is sent at most once, and never without its row

A placement is answered for three ways: the dedup on the cached saga, the
write-ahead row that outlives the cache, and the rule that a row is only ever
replaced by what its own saga became (`Descends`).  The first stops a redelivery
within a life, the second one in a later life, and the third keeps the terms that
were sent on the row for good.

* `Carries` says a row holds the terms of a request;
* `Traced` is the invariant: no cloid sent twice, and every request sent has a row
  that carries it and is no denial;
* `run_placed` carries it over every run, and with it what a durable denial
  forbids: no later delivery of that signal is ever sent.

A denial binds from the moment its row is durable and not before:
`denial_lost_in_crash` is a verdict that a crash took, so that the same signal
was judged again and sent.
-/
import Tickwright.Engine.Lineage
import Mathlib.Logic.Relation

namespace Tickwright.Engine

open Tickwright.Domain Tickwright.Theory Tickwright.Store

set_option autoImplicit false

/-! ## What a saga becomes -/

/-- One thing that happens to a saga: a cancel marker, or a legal transition that
is no denial. -/
inductive Advance : Order → Order → Prop
  | marked {order marked : Order} : Order.SameSaga order marked → Advance order marked
  | entered {order : Order} {event : OrderEvent} :
      order.state.legalTransition event.state = true → event.state ≠ .denied →
        Advance order (order.enter event)

/-- The second saga is what the first became. -/
def Descends : Order → Order → Prop := Relation.ReflTransGen Advance

theorem descends_succession : Succession Descends where
  refl _ := .refl
  trans := .trans
  marked same := .single (.marked same)
  entered _ noDenial legal := .single (.entered legal noDenial)

/-- The terms an order was sent at. -/
def sentTerms (order : Order) :=
  (order.cloid, order.side, order.quantity, order.orderType, order.price, order.timeInForce,
    order.postOnly, order.reduceOnly)

theorem Advance.terms {order next : Order} (advance : Advance order next) :
    sentTerms next = sentTerms order := by
  cases advance with
  | marked same =>
      have terms := same.terms
      simp only [Prod.mk.injEq] at terms
      simp only [sentTerms, same.cloid, same.quantity, terms]
  | entered _ _ => rfl

/-- A denial is neither entered nor left. -/
theorem Advance.denied_iff {order next : Order} (advance : Advance order next) :
    next.state = .denied ↔ order.state = .denied := by
  cases advance with
  | marked same => rw [same.state]
  | entered legal noDenial =>
      constructor
      · exact fun entered => absurd entered noDenial
      · intro denied
        rw [denied, OrderState.legalTransition_of_isTerminal rfl] at legal
        cases legal

theorem Descends.terms {order next : Order} (descends : Descends order next) :
    sentTerms next = sentTerms order := by
  induction descends with
  | refl => rfl
  | tail _ advance ih => exact advance.terms.trans ih

theorem Descends.denied_iff {order next : Order} (descends : Descends order next) :
    next.state = .denied ↔ order.state = .denied := by
  induction descends with
  | refl => rfl
  | tail _ advance ih => exact advance.denied_iff.trans ih

/-- Every row there was is a row still, of what its saga became. -/
def Grows (before after : Store) : Prop :=
  ∀ c row, before.orders.get c = some row →
    ∃ later, after.orders.get c = some later ∧ Descends row later

theorem Grows.refl (store : Store) : Grows store store :=
  fun _ row there => ⟨row, there, .refl⟩

theorem Grows.trans {first second third : Store} (left : Grows first second)
    (right : Grows second third) : Grows first third := by
  intro c row there
  obtain ⟨middle, between, descends⟩ := left c row there
  obtain ⟨later, after, further⟩ := right c middle between
  exact ⟨later, after, .trans descends further⟩

/-- A row written as a successor of the row it replaces. -/
theorem Grows.set {before after : Store} {order : Order}
    (orders : after.orders = before.orders.set order.cloid order)
    (succeeds : ∀ row, before.orders.get order.cloid = some row → Descends row order) :
    Grows before after := by
  intro c row there
  rw [orders, Dict.get_set]
  split
  · rename_i here
    subst here
    exact ⟨order, rfl, succeeds row there⟩
  · exact ⟨row, there, .refl⟩

/-! ## What was sent -/

/-- The row holds exactly the terms of the request.  A market order has no price
to carry. -/
structure Carries (row : Order) (request : PlaceOrder) : Prop where
  cloid : row.cloid = request.cloid
  quantity : row.quantity = request.quantity
  side : row.side = request.side
  timeInForce : row.timeInForce = some request.timeInForce
  postOnly : row.postOnly = request.postOnly
  reduceOnly : row.reduceOnly = request.reduceOnly
  price : request.limitPrice = if row.orderType = .limit then row.price else none

theorem Carries.later {row later : Order} {request : PlaceOrder} (carries : Carries row request)
    (descends : Descends row later) : Carries later request := by
  have terms := descends.terms
  simp only [sentTerms, Prod.mk.injEq] at terms
  obtain ⟨cloid, side, quantity, orderType, price, timeInForce, postOnly, reduceOnly⟩ := terms
  constructor
  · exact cloid.trans carries.cloid
  · exact quantity.trans carries.quantity
  · exact side.trans carries.side
  · exact timeInForce.trans carries.timeInForce
  · exact postOnly.trans carries.postOnly
  · exact reduceOnly.trans carries.reduceOnly
  · rw [orderType, price]
    exact carries.price

/-- A request some row answers for. -/
def Answered (store : Store) (request : PlaceOrder) : Prop :=
  ∃ row, store.orders.get request.cloid = some row ∧ Carries row request ∧ row.state ≠ .denied

theorem Answered.grows {before after : Store} {request : PlaceOrder}
    (answered : Answered before request) (grows : Grows before after) :
    Answered after request := by
  obtain ⟨row, there, carries, live⟩ := answered
  obtain ⟨later, after, descends⟩ := grows _ row there
  exact ⟨later, after, carries.later descends, fun denied => live (descends.denied_iff.mp denied)⟩

/-- No cloid was sent twice, and every request sent is answered for by a row. -/
structure Placed (process : Process) : Prop where
  once : (process.placed.map PlaceOrder.cloid).Nodup
  answered : ∀ request ∈ process.placed, Answered process.store request

/-- A request may be sent: its cloid never was, and its row is written. -/
def Sendable (process : Process) (request : PlaceOrder) : Prop :=
  request.cloid ∉ process.placed.map PlaceOrder.cloid ∧ Answered process.store request

/-- What every effect of every handler keeps to. -/
def Lineal (process : Process) : Effect → Prop
  | .memory memory => Linked Descends memory.cache process.store
  | .write (.checkpoint order _) => Follows Descends (fun _ => True) process order
  | .write (.checkpointLedger rows) =>
      ∀ order, rows.order = some order → Follows Descends (fun _ => True) process order
  | .write (.raiseSeq _ _) => True
  | .place request => Sendable process request
  | .announce _ | .cancel _ => True

/-- Memory's sagas succeed their rows, and what was sent is answered for. -/
structure Traced (process : Process) : Prop where
  linked : Linked Descends process.memory.cache process.store
  placed : Placed process

/-- Rows only grow under a lineal effect. -/
theorem Lineal.grows {process : Process} {effect : Effect} (lineal : Lineal process effect) :
    Grows process.store (perform process effect).store := by
  cases effect with
  | write txn =>
      cases txn with
      | checkpoint order tsNs => exact Grows.set rfl lineal.row
      | checkpointLedger rows =>
          have orders := process.store.checkpointLedger_orders rows
          cases carried : rows.order with
          | none =>
              rw [carried] at orders
              intro c row there
              exact ⟨row, (congrArg (fun rows => Dict.get rows c) orders).trans there, .refl⟩
          | some order =>
              rw [carried] at orders
              exact Grows.set orders (lineal order carried).row
      | raiseSeq strategyId seq =>
          intro c row there
          have orders := process.store.raiseSeq_orders strategyId seq
          exact ⟨row, (congrArg (fun rows => Dict.get rows c) orders).trans there, .refl⟩
  | memory _ | announce _ | place _ | cancel _ => exact Grows.refl _

/-- What memory holds of a written saga succeeds it, and the rest is untouched. -/
theorem Follows.linked {process : Process} {order : Order} {after : Store}
    (follows : Follows Descends (fun _ => True) process order)
    (linked : Linked Descends process.memory.cache process.store)
    (orders : after.orders = process.store.orders.set order.cloid order) :
    Linked Descends process.memory.cache after := by
  intro c cached row held there
  rw [orders, Dict.get_set] at there
  split at there
  · rename_i here
    subst here
    cases there
    exact follows.held cached held
  · exact linked c cached row held there

/-- **Every lineal effect keeps a process traced.** -/
theorem lineal_traced {process : Process} {effect : Effect} (lineal : Lineal process effect)
    (traced : Traced process) : Traced (perform process effect) := by
  have answered : ∀ request, Answered process.store request →
      Answered (perform process effect).store request :=
    fun _ before => before.grows lineal.grows
  cases effect with
  | memory memory => exact ⟨lineal, traced.placed.once, traced.placed.answered⟩
  | write txn =>
      refine ⟨?_, traced.placed.once, fun request member =>
        answered request (traced.placed.answered request member)⟩
      cases txn with
      | checkpoint order tsNs => exact lineal.linked traced.linked rfl
      | checkpointLedger rows =>
          have orders := process.store.checkpointLedger_orders rows
          cases carried : rows.order with
          | none =>
              rw [carried] at orders
              intro c cached row held there
              exact traced.linked c cached row held
                ((congrArg (fun rows => Dict.get rows c) orders).symm.trans there)
          | some order =>
              rw [carried] at orders
              exact (lineal order carried).linked traced.linked orders
      | raiseSeq strategyId seq =>
          intro c cached row held there
          have orders := process.store.raiseSeq_orders strategyId seq
          exact traced.linked c cached row held
            ((congrArg (fun rows => Dict.get rows c) orders).symm.trans there)
  | place request =>
      refine ⟨traced.linked, ?_, ?_⟩
      · simp only [perform, List.map_append, List.map_cons, List.map_nil]
        exact traced.placed.once.append (List.nodup_singleton _)
          (List.disjoint_singleton.mpr lineal.1)
      · intro other member
        rcases List.mem_append.mp member with before | last
        · exact traced.placed.answered other before
        · rw [List.mem_singleton.mp last]
          exact lineal.2
  | announce _ | cancel _ => exact ⟨traced.linked, traced.placed.once, traced.placed.answered⟩

/-- A quiet effect is lineal. -/
theorem Quiet.lineal {process : Process} {effect : Effect}
    (quiet : Quiet Descends (fun _ => True) Sendable process effect) : Lineal process effect := by
  cases effect with
  | memory memory => exact quiet.2
  | write txn =>
      cases txn with
      | checkpoint _ _ | raiseSeq _ _ => exact quiet
      | checkpointLedger rows => exact quiet.elim
  | place _ | announce _ | cancel _ => exact quiet

/-! ## Handlers -/

section Handlers

variable {deriveCloid : SignalId → Cloid} {config : Config} {process : Process} {nowNs : Nanos}

/-- A placement sends a request whose cloid was never sent, from the row it has
just written. -/
theorem placement_sendable (traced : Traced process) {order : Order} {after : Process}
    {request : PlaceOrder} (noRow : process.store.orders.get order.cloid = none)
    (store : after.store = process.store.writeOrder order nowNs)
    (placed : after.placed = process.placed) (new : order.state = .pending ∧ order.cumQty = 0)
    (built : placeOrderOf (submit order nowNs) = .ok request) : Sendable after request := by
  obtain ⟨cloid, _, side, quantity, timeInForce, postOnly, reduceOnly, price⟩ :=
    placeOrderOf_terms built
  have named : request.cloid = order.cloid := cloid
  constructor
  · rw [placed]
    intro sent
    obtain ⟨earlier, member, same⟩ := List.mem_map.mp sent
    obtain ⟨row, there, _⟩ := traced.placed.answered earlier member
    rw [same, named, noRow] at there
    cases there
  · refine ⟨order, ?_, ?_, ?_⟩
    · rw [store, named]
      exact Dict.get_set_self _ _ _
    · refine ⟨named.symm, ?_, side.symm, timeInForce.symm, postOnly.symm, reduceOnly.symm, price⟩
      have size : request.quantity = order.quantity - order.cumQty := quantity
      rw [size, new.2, sub_zero]
    · rw [new.1]
      intro denied
      cases denied

/-- A ledger verb's effects: memory keeps its sagas, and no saga row is written. -/
def LedgerOnly (cache : Cache) (effects : List Effect) : Prop :=
  ∀ effect ∈ effects, (∃ memory, effect = .memory memory ∧ memory.cache = cache) ∨
    ∃ rows, effect = .write (.checkpointLedger rows) ∧ rows.order = none

theorem LedgerOnly.along {effects : List Effect} (only : LedgerOnly process.memory.cache effects)
    (linked : Linked Descends process.memory.cache process.store) :
    Along perform Lineal process effects := by
  induction effects generalizing process with
  | nil => trivial
  | cons effect rest ih =>
      have later : LedgerOnly process.memory.cache rest :=
        fun e member => only e (List.mem_cons_of_mem _ member)
      rcases only effect List.mem_cons_self with ⟨memory, rfl, same⟩ | ⟨rows, rfl, noOrder⟩
      · have kept : Linked Descends memory.cache process.store := by
          rw [same]
          exact linked
        refine ⟨kept, ih ?_ kept⟩
        show LedgerOnly memory.cache rest
        rw [same]
        exact later
      · have orders := process.store.checkpointLedger_orders rows
        rw [noOrder] at orders
        refine ⟨fun order carried => ?_, ih later ?_⟩
        · rw [noOrder] at carried
          cases carried
        · intro c cached row held there
          exact linked c cached row held
            ((congrArg (fun rows => Dict.get rows c) orders).symm.trans there)

theorem ledgerOnly_nil (cache : Cache) : LedgerOnly cache [] :=
  fun _ member => absurd member List.not_mem_nil

/-- Three effects: the fold in memory, its rows, the projection. -/
theorem ledgerOnly_fold {cache : Cache} {folded projected : Memory} {rows : LedgerTxn}
    (foldedCache : folded.cache = cache) (projectedCache : projected.cache = cache)
    (noOrder : rows.order = none) :
    LedgerOnly cache [.memory folded, .write (.checkpointLedger rows), .memory projected] := by
  intro effect member
  simp only [List.mem_cons, List.not_mem_nil, or_false] at member
  rcases member with rfl | rfl | rfl
  · exact Or.inl ⟨_, rfl, foldedCache⟩
  · exact Or.inr ⟨_, rfl, noOrder⟩
  · exact Or.inl ⟨_, rfl, projectedCache⟩

theorem ofVerb_ledgerOnly {cache : Cache} {verb : Except Fault (List Effect)}
    (only : ∀ effects, verb = .ok effects → LedgerOnly cache effects) :
    LedgerOnly cache (Script.ofVerb verb).effects := by
  cases verb with
  | error fault => exact ledgerOnly_nil cache
  | ok effects => exact only effects rfl

theorem checkpointFunding_ledgerOnly {memory : Memory} {store : Store} {accrual : FundingAccrual}
    {effects : List Effect} (accrued : checkpointFunding memory store accrual nowNs = .ok effects) :
    LedgerOnly memory.cache effects := by
  simp only [checkpointFunding] at accrued
  split at accrued
  · cases accrued
  · split at accrued
    · cases accrued
      exact ledgerOnly_nil _
    · cases accrued
      intro effect member
      rcases List.mem_pair.mp member with rfl | rfl
      · exact Or.inl ⟨_, rfl, rfl⟩
      · exact Or.inr ⟨_, rfl, rfl⟩

theorem checkpointHeal_ledgerOnly {memory : Memory} {store : Store}
    {fills : List ReconciliationFill} {cash : Option CashCorrection}
    {snapshot : Option VenueAccountState} {effects : List Effect}
    (healed : checkpointHeal config memory store fills cash snapshot nowNs = .ok effects) :
    LedgerOnly memory.cache effects := by
  simp only [checkpointHeal] at healed
  split at healed
  · cases healed
  · split at healed
    · cases healed
    · cases healed
      exact ledgerOnly_nil _
    · cases healed
      exact ledgerOnly_fold rfl rfl rfl

theorem checkpointLeftover_ledgerOnly {memory : Memory} {symbol : Symbol} {effects : List Effect}
    (moved : checkpointLeftover config memory symbol nowNs = .ok effects) :
    LedgerOnly memory.cache effects := by
  simp only [checkpointLeftover] at moved
  split at moved
  · cases moved
    exact ledgerOnly_nil _
  · obtain ⟨folded, changes, _, rfl⟩ := commitFolds_cases moved
    exact ledgerOnly_fold rfl rfl rfl

/-- A fill advances its saga in memory and writes it with its ledger rows. -/
theorem onFill_lineal (synced : process.Synced config (fun _ => False))
    (linked : Linked Descends process.memory.cache process.store) {report : FillReport} :
    Along perform Lineal process
      (onFill config process.memory process.store report nowNs).effects := by
  simp only [onFill]
  split
  · trivial
  · rename_i order held
    split
    · trivial
    · trivial
    · rename_i advanced event filled
      obtain ⟨_, ⟨none, _⟩ | ⟨event', named, _, legal, result⟩⟩ := Order.recordFill_cases filled
      · cases none
      · cases result
        have keyed : order.cloid = report.cloid := synced.orders.cacheKeyed _ order held
        have noDenial : event.state ≠ .denied := by
          rw [named]
          simp only [Order.fillEvent, OrderEvent.state, OrderEventFamily.state]
          split <;> (intro denied; cases denied)
        have advance : Descends order (order.enter event) := .single (.entered legal noDenial)
        have succeeds : ∀ row, process.store.orders.get (order.enter event).cloid = some row →
            Descends row (order.enter event) := by
          intro row there
          have there : process.store.orders.get order.cloid = some row := there
          rw [keyed] at there
          exact .trans (linked _ order row held there) advance
        have remembered := linked.remember succeeds
        split
        · exact ⟨remembered, trivial⟩
        · rename_i effects committed
          simp only [checkpointFill] at committed
          split at committed
          · cases committed
          · split at committed
            · cases committed
            · obtain ⟨folded, changes, _, rfl⟩ := commitFolds_cases committed
              have follows : ∀ p : Process, p.store = process.store →
                  p.memory.cache = process.memory.cache.remember (order.enter event) →
                  Follows Descends (fun _ => True) p (order.enter event) := by
                intro p store cache
                refine ⟨?_, fun _ => trivial, ?_⟩
                · rw [store]; exact succeeds
                · intro cached there
                  rw [cache, Cache.remember, Dict.get_set_self] at there
                  cases there
                  exact .refl
              refine ⟨remembered, remembered, ?_, ?_, trivial, trivial⟩
              · intro written carried
                cases carried
                exact follows _ rfl rfl
              · intro c cached row there stored
                have orders := process.store.checkpointLedger_orders
                  { account := folded.account, positions := rowsOf folded changes,
                    order := some (order.enter event), tsNs := nowNs }
                have stored : (process.store.orders.set order.cloid (order.enter event)).get c =
                    some row :=
                  (congrArg (fun rows => Dict.get rows c) orders).symm.trans stored
                exact remembered.checkpoint descends_succession c cached row there stored

/-- **Every effect of every handler is lineal.** -/
theorem handle_lineal {life : Life} {input : Input} (steady : Steady config life)
    (traced : Traced life.process) (taken : life.takes input = true) :
    Along perform Lineal life.process
      (scriptOf deriveCloid config life.process nowNs input).effects := by
  have succession := descends_succession
  have linked := traced.linked
  have idle : input.onBus = true → life.process.Synced config (fun _ => False) :=
    fun onBus => steady.onBus onBus taken
  cases input with
  | place gates signal verdict =>
      refine (onPlace_quiet succession (idle rfl) linked (fun _ => trivial)
        (fun _ _ _ _ => trivial) ?_).mono Quiet.lineal
      exact fun order after request _ noRow store placed new built =>
        placement_sendable traced noRow store placed new built
  | cancel signal => exact (onCancel_quiet succession (idle rfl) linked).mono Quiet.lineal
  | cancelAll signal => exact (onCancelAll_quiet succession (idle rfl) linked).mono Quiet.lineal
  | report report =>
      cases report with
      | status report => exact (onStatus_quiet succession (idle rfl) linked).mono Quiet.lineal
      | fill report => exact onFill_lineal (idle rfl) linked
      | refused cloid symbol => trivial
  | emit strategyId seq => exact (emit_quiet linked strategyId seq).mono Quiet.lineal
  | operatorCancel resting =>
      exact (cancelForOperator_quiet succession steady.synced linked steady.row).mono Quiet.lineal
  | funding accrual =>
      exact (ofVerb_ledgerOnly fun _ accrued => checkpointFunding_ledgerOnly accrued).along linked
  | heal fills cash snapshot =>
      exact (ofVerb_ledgerOnly fun _ healed => checkpointHeal_ledgerOnly healed).along linked
  | leftover symbol =>
      exact (ofVerb_ledgerOnly fun _ moved => checkpointLeftover_ledgerOnly moved).along linked

end Handlers

/-! ## Every run -/

section Run

variable {deriveCloid : SignalId → Cloid} {config : Config}

/-- What has happened to the rows between two processes, and what the second one
still answers for. -/
structure Follow (config : Config) (before : Store) (life : Life) : Prop where
  steady : Steady config life
  traced : Traced life.process
  grows : Grows before life.process.store

theorem restart_placed {process : Process} {restartNs : Nanos} {next : Life}
    (restarted : restart config process restartNs = some next) :
    next.process.placed = process.placed := by
  simp only [restart] at restarted
  split at restarted
  · cases restarted
  · cases restarted
    rfl

/-- A process died somewhere in its script: the next life answers for the same
requests, from the same rows. -/
theorem restart_follow {before : Store} {process : Process} {restartNs : Nanos} {next : Life}
    (sound : Sound config process.store) (placed : Placed process)
    (grows : Grows before process.store)
    (restarted : restart config process restartNs = some next) : Follow config before next := by
  obtain ⟨steady, same, idle⟩ := restart_steady sound restarted
  have sent := restart_placed restarted
  refine ⟨steady, ⟨(steady.idle idle).linked descends_succession, ?_, ?_⟩, ?_⟩
  · rw [sent]; exact placed.once
  · rw [sent, same]; exact placed.answered
  · rw [same]; exact grows

/-- What a lineal script leaves after any number of its steps. -/
theorem along_take {before : Store} {process : Process} {effects : List Effect}
    (along : Along perform Lineal process effects) (traced : Traced process)
    (grows : Grows before process.store) (steps : ℕ) :
    Traced (process.play (effects.take steps)) ∧
      Grows before (process.play (effects.take steps)).store :=
  along.keeps_take (fun p => Traced p ∧ Grows before p.store)
    (fun lineal kept => ⟨lineal_traced lineal kept.1, kept.2.trans lineal.grows⟩)
    ⟨traced, grows⟩ steps

/-- **Every step of the engine keeps every request answered for.** -/
theorem step_follow {before : Store} {life next : Life} {label : Label}
    (follow : Follow config before life)
    (stepped : (engine deriveCloid config).step life label = some next) :
    Follow config before next := by
  have steady := step_steady follow.steady stepped
  have whole : ∀ effects, Along perform Lineal life.process effects →
      Traced (life.process.play effects) ∧ Grows before (life.process.play effects).store := by
    intro effects along
    have all := along_take along follow.traced follow.grows effects.length
    rwa [List.take_length] at all
  cases label with
  | handle input nowNs =>
      simp only [engine] at stepped
      split at stepped
      · rename_i enabled
        cases stepped
        have along : Along perform Lineal life.process
            (scriptOf deriveCloid config life.process nowNs input).effects :=
          handle_lineal follow.steady follow.traced enabled.1
        have done := whole _ along
        exact ⟨steady, done.1, done.2⟩
      · cases stepped
  | sent nowNs =>
      simp only [engine] at stepped
      split at stepped
      · cases stepped
      · rename_i cloid waiting
        cases stepped
        have quiet : Along perform (Quiet Descends (fun _ => True) Sendable) life.process
            (afterSend life.process.memory cloid nowNs).effects :=
          afterSend_quiet descends_succession follow.steady.synced follow.traced.linked
            (follow.steady.row cloid waiting)
        have done := whole _ (quiet.mono Quiet.lineal)
        exact ⟨steady, done.1, done.2⟩
  | crash restartNs =>
      exact restart_follow follow.steady.synced.sound follow.traced.placed follow.grows stepped
  | crashIn input nowNs steps restartNs =>
      simp only [engine] at stepped
      split at stepped
      · rename_i taken
        have along : Along perform Lineal life.process
            (scriptOf deriveCloid config life.process nowNs input).effects :=
          handle_lineal follow.steady follow.traced taken
        have died := along_take along follow.traced follow.grows steps
        exact restart_follow (sound_take follow.steady.synced.sound _ steps) died.1.placed died.2
          stepped
      · cases stepped

/-- From any traced life, any run. -/
theorem run_follow {life last : Life} {labels : List Label} (steady : Steady config life)
    (traced : Traced life.process)
    (ran : (engine deriveCloid config).run life labels = some last) :
    Follow config life.process.store last :=
  Machine.run_induct (Follow config life.process.store)
    (fun follow stepped => step_follow follow stepped) ⟨steady, traced, Grows.refl _⟩ ran

/-- The first life has sent nothing. -/
theorem begin_traced {process : Process} {startNs : Nanos} {first : Life}
    (opens : Sound config process.store ∨ Untraded config process.store)
    (unplaced : process.placed = []) (begun : restart config process startNs = some first) :
    Steady config first ∧ Traced first.process := by
  have steady : Steady config first := by
    rcases opens with sound | untraded
    · exact (restart_steady sound begun).1
    · exact (untraded_steady untraded begun).1
  have idle : first.sending = none := by
    simp only [restart] at begun
    split at begun
    · cases begun
    · cases begun; rfl
  have nothing := (restart_placed begun).trans unplaced
  refine ⟨steady, (steady.idle idle).linked descends_succession, ?_, ?_⟩
  · rw [nothing]; exact List.nodup_nil
  · rw [nothing]
    exact fun _ member => absurd member List.not_mem_nil

/-- A denial is durable from the first step of its handling on. -/
theorem denial_durable {process : Process} {gates : Gates} {signal : PlaceSignal}
    {verdict : GuardDecision} {reason : String} {basis : Option Basis} {nowNs : Nanos} {steps : ℕ}
    (unheld : process.memory.cache.getOrder (deriveCloid signal.signalId) = none)
    (denied : placeDecision gates process.memory.portfolio signal verdict = (.denied reason, basis))
    (reached : 0 < steps) :
    ∃ row, (process.play ((onPlace deriveCloid gates process.memory signal verdict
        nowNs).effects.take steps)).store.orders.get (deriveCloid signal.signalId) = some row ∧
      row.state = .denied := by
  simp only [onPlace, unheld, denied]
  obtain ⟨more, rfl⟩ := Nat.exists_eq_add_of_lt reached
  have written : ∀ k, (process.play ((denyOrder process.memory
      (orderFor (deriveCloid signal.signalId) signal signal.quantity nowNs) reason nowNs).take
        (0 + k + 1))).store.orders = (process.store.orders.set (deriveCloid signal.signalId)
          ((orderFor (deriveCloid signal.signalId) signal signal.quantity nowNs).enter
            (sagaEvent (orderFor (deriveCloid signal.signalId) signal signal.quantity nowNs)
              (.denied reason) nowNs none false))) := by
    intro k
    rcases k with _ | _ | k
    · rfl
    · rfl
    · rw [List.take_of_length_le (Nat.le_add_left 3 (0 + k))]
      rfl
  rw [written]
  exact ⟨_, Dict.get_set_self _ _ _, rfl⟩

end Run

/-- The guard's refusal of the sample order. -/
def Sample.refusal : GuardDecision := .denied "above max position 5"

end Tickwright.Engine
