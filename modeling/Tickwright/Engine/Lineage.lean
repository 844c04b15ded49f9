/-
# Engine.Lineage -- a row is only ever replaced by what its own saga became

Whatever a handler does, the saga it writes under a cloid comes from the saga
that was there: a mark, a legal transition, or both.  A `Succession` is any
relation that holds along such steps; each result about rows picks its own (what
a saga books, the terms it was sent at) and gets the handlers for free.

* `Linked` says every cached saga succeeds its row;
* `Quiet` is one effect that moves no ledger and writes only successors, or a
  saga no row knew;
* `onPlace_quiet` to `afterSend_quiet` say the handlers that book no fill are
  quiet along their whole scripts, so at every point a crash can fall.
-/
import Tickwright.Engine.Life

namespace Tickwright.Engine

open Tickwright.Domain Tickwright.Theory Tickwright.Store

set_option autoImplicit false

/-- A relation from a saga to what its handlers can make of it. -/
structure Succession (R : Order → Order → Prop) : Prop where
  refl : ∀ order, R order order
  trans : ∀ {first second third}, R first second → R second third → R first third
  marked : ∀ {order marked}, Order.SameSaga order marked → R order marked
  /-- A legal transition a status makes; a denial is no status. -/
  entered : ∀ {order : Order} {event : OrderEvent}, (∃ state, event.eventId = .state order.cloid state) →
    event.state ≠ .denied → order.state.legalTransition event.state = true → R order (order.enter event)

/-- Every cached saga succeeds its row. -/
def Linked (R : Order → Order → Prop) (cache : Cache) (store : Store) : Prop :=
  ∀ c order row, cache.orders.get c = some order → store.orders.get c = some row → R row order

/-- A saga written here succeeds its row, or opens one; what memory holds of it
succeeds what is written. -/
structure Follows (R : Order → Order → Prop) (Opens : Order → Prop) (process : Process)
    (order : Order) : Prop where
  row : ∀ row, process.store.orders.get order.cloid = some row → R row order
  opens : process.store.orders.get order.cloid = none → Opens order
  held : ∀ cached, process.memory.cache.orders.get order.cloid = some cached → R order cached

/-- An effect that keeps the ledger, writes only successors, and sends only what
`Sends` allows. -/
def Quiet (R : Order → Order → Prop) (Opens : Order → Prop) (Sends : Process → PlaceOrder → Prop)
    (process : Process) : Effect → Prop
  | .memory memory =>
      memory.portfolio = process.memory.portfolio ∧ Linked R memory.cache process.store
  | .write (.checkpoint order _) => Follows R Opens process order
  | .write (.raiseSeq _ _) => True
  | .write (.checkpointLedger _) => False
  | .place request => Sends process request
  | .announce _ | .cancel _ => True

variable {R : Order → Order → Prop} {Opens : Order → Prop} {Sends : Process → PlaceOrder → Prop}

theorem Linked.remember {cache : Cache} {store : Store} {order : Order}
    (linked : Linked R cache store)
    (succeeds : ∀ row, store.orders.get order.cloid = some row → R row order) :
    Linked R (cache.remember order) store := by
  intro c cached row held there
  simp only [Cache.remember, Dict.get_set] at held
  split at held
  · rename_i here
    cases held
    rw [← here] at there
    exact succeeds row there
  · exact linked c cached row held there

/-- A saga no row knows is in no cache. -/
theorem Process.Synced.absent_row {config : Config} {stale : Cloid → Prop} {process : Process}
    (synced : process.Synced config stale) {c : Cloid}
    (absent : process.memory.cache.getOrder c = none) : process.store.orders.get c = none := by
  cases there : process.store.orders.get c with
  | none => rfl
  | some row =>
      have known := synced.orders.known c (by rw [there]; rfl)
      rw [Cache.getOrder] at absent
      rw [absent] at known
      cases known

/-- In sync, what memory holds of a saga is its row. -/
theorem Process.Synced.linked {config : Config} {process : Process} (succession : Succession R)
    (synced : process.Synced config (fun _ => False)) :
    Linked R process.memory.cache process.store := by
  intro c order row held there
  rw [synced.orders.orders c not_false, there] at held
  cases held
  exact succession.refl _

/-- A successor written, then projected, leaves memory linked. -/
theorem Linked.checkpoint {cache : Cache} {store : Store} {order : Order} {tsNs : Nanos}
    (succession : Succession R) (linked : Linked R cache store) :
    Linked R (cache.project order tsNs) (store.writeOrder order tsNs) := by
  intro c cached row held there
  simp only [Store.writeOrder_orders, Cache.project, Dict.get_set] at held there
  split at held
  · rename_i here
    rw [if_pos here] at there
    cases held
    cases there
    exact succession.refl _
  · rename_i ne
    rw [if_neg ne] at there
    exact linked c cached row held there

section Handlers

variable {deriveCloid : SignalId → Cloid} {config : Config} {stale : Cloid → Prop}
  {process : Process} {nowNs : Nanos} (succession : Succession R)
include succession

/-- A row written quietly, then projected. -/
theorem along_checkpoint {memory : Memory} {order : Order} {tsNs : Nanos}
    (follows : Follows R Opens process order)
    (ledger : memory.portfolio = process.memory.portfolio)
    (linked : Linked R memory.cache process.store) :
    Along perform (Quiet R Opens Sends) process (checkpoint memory order tsNs) :=
  ⟨follows, ⟨ledger, linked.checkpoint succession⟩, trivial⟩

/-- A cached saga advanced, then written. -/
theorem along_rewrite {memory : Memory} {order cached : Order} {c : Cloid} {tsNs : Nanos}
    (keyed : order.cloid = c) (ledger : memory.portfolio = process.memory.portfolio)
    (held : process.memory.cache.orders.get c = some cached)
    (row : (process.store.orders.get c).isSome = true)
    (linkedMemory : Linked R memory.cache process.store)
    (linked : Linked R process.memory.cache process.store) (advanced : R cached order) :
    Along perform (Quiet R Opens Sends) process
      (.memory (memory.remember order) :: checkpoint (memory.remember order) order tsNs) := by
  have succeeds : ∀ old, process.store.orders.get order.cloid = some old → R old order := by
    intro old there
    rw [keyed] at there
    exact succession.trans (linked c cached old held there) advanced
  have remembered := linkedMemory.remember succeeds
  refine ⟨⟨ledger, remembered⟩, along_checkpoint succession ⟨succeeds, ?_, ?_⟩ rfl remembered⟩
  · intro absent
    have gone : process.store.orders.get order.cloid = none := absent
    rw [keyed] at gone
    rw [gone] at row
    cases row
  · intro other there
    have same : (memory.cache.orders.set order.cloid order).get order.cloid = some other := there
    rw [Dict.get_set_self] at same
    cases same
    exact succession.refl _

/-- A placement opens a row with a saga that was never held, and advances it to
`SUBMITTED` in memory. -/
theorem onPlace_quiet (synced : process.Synced config stale)
    (linked : Linked R process.memory.cache process.store) {gates : Gates} {signal : PlaceSignal}
    {verdict : GuardDecision}
    (denies : ∀ reason, Opens ((orderFor (deriveCloid signal.signalId) signal signal.quantity
      nowNs).enter (sagaEvent (orderFor (deriveCloid signal.signalId) signal signal.quantity nowNs)
        (.denied reason) nowNs none false)))
    (approves : ∀ quantity price basis,
      placeDecision gates process.memory.portfolio signal verdict =
        (.approved quantity price, basis) →
      Opens (approvedOrder (deriveCloid signal.signalId) signal quantity price basis nowNs))
    (sends : ∀ order after request, order.cloid = deriveCloid signal.signalId →
      process.store.orders.get order.cloid = none →
      after.store = process.store.writeOrder order nowNs → after.placed = process.placed →
      order.state = .pending ∧ order.cumQty = 0 → placeOrderOf (submit order nowNs) = .ok request →
      Sends after request) :
    Along perform (Quiet R Opens Sends) process
      (onPlace deriveCloid gates process.memory signal verdict nowNs).effects := by
  simp only [onPlace]
  split
  · trivial
  · rename_i absent
    have noRow := synced.absent_row absent
    have opening : ∀ order : Order, order.cloid = deriveCloid signal.signalId → Opens order →
        Along perform (Quiet R Opens Sends) process (checkpoint process.memory order nowNs) := by
      intro order keyed opens
      refine along_checkpoint succession ⟨?_, fun _ => opens, ?_⟩ rfl linked
      · intro row there
        rw [keyed, noRow] at there
        cases there
      · intro cached there
        rw [keyed] at there
        rw [Cache.getOrder, there] at absent
        cases absent
    split
    · rename_i reason basis decided
      exact along_append.mpr ⟨opening _ rfl (denies reason), trivial, trivial⟩
    · rename_i quantity price basis decided
      have opened := opening _ rfl (approves quantity price basis decided)
      have sending : Linked R ((process.memory.project (approvedOrder (deriveCloid signal.signalId)
          signal quantity price basis nowNs) nowNs).remember (submit (approvedOrder
            (deriveCloid signal.signalId) signal quantity price basis nowNs) nowNs)).cache
          (process.store.writeOrder (approvedOrder (deriveCloid signal.signalId) signal quantity
            price basis nowNs) nowNs) := by
        apply Linked.remember opened.2.1.2
        intro old there
        have stored := Option.some.inj (there.symm.trans (Dict.get_set_self _ _ _))
        rw [stored]
        exact succession.entered ⟨_, rfl⟩ (by intro denied; cases denied) rfl
      simp only [placeOrder]
      split
      · exact along_append.mpr ⟨opened, trivial, ⟨rfl, sending⟩, trivial, trivial⟩
      · rw [List.append_assoc]
        rename_i request built
        exact along_append.mpr ⟨opened, trivial, ⟨rfl, sending⟩, trivial,
          sends _ _ request rfl noRow rfl rfl ⟨rfl, rfl⟩ built, trivial⟩

theorem onCancel_quiet (synced : process.Synced config (fun _ => False))
    (linked : Linked R process.memory.cache process.store) {signal : CancelSignal} :
    Along perform (Quiet R Opens Sends) process
      (onCancel deriveCloid process.memory signal nowNs).effects := by
  simp only [onCancel]
  split
  · trivial
  · rename_i order held
    split
    · trivial
    · rename_i marked requested
      have same := Order.requestCancel_sameSaga requested
      have row : (process.store.orders.get (deriveCloid signal.targetSignalId)).isSome = true := by
        rw [← synced.orders.orders _ not_false, ← Cache.getOrder, held]
        rfl
      exact along_append.mpr ⟨along_rewrite succession
        (same.cloid.trans (synced.orders.cacheKeyed _ order held)) rfl held row linked linked
        (succession.marked same), trivial, trivial⟩

/-- Sagas already remembered, written one after another. -/
theorem along_checkpointEach (marked : List Order)
    (unique : ∀ order ∈ marked, ∀ other ∈ marked, order.cloid = other.cloid → order = other) :
    ∀ process : Process, Linked R process.memory.cache process.store →
      (∀ order ∈ marked, process.memory.cache.orders.get order.cloid = some order ∧
        ∃ row, process.store.orders.get order.cloid = some row ∧ R row order) →
      Along perform (Quiet R Opens Sends) process (checkpointEach process.memory nowNs marked) := by
  induction marked with
  | nil => intro _ _ _; trivial
  | cons order rest ih =>
      intro process linked rows
      obtain ⟨held, row, there, advanced⟩ := rows order List.mem_cons_self
      have follows : Follows R Opens process order := by
        refine ⟨?_, ?_, ?_⟩
        · intro row' there'
          rw [there] at there'
          cases there'
          exact advanced
        · intro absent
          rw [there] at absent
          cases absent
        · intro cached there'
          rw [held] at there'
          cases there'
          exact succession.refl order
      have written : Along perform (Quiet R Opens Sends) process
          (checkpoint process.memory order nowNs) :=
        along_checkpoint succession follows rfl linked
      refine along_append.mpr ⟨written, ?_⟩
      apply ih (fun a first b second => unique a (List.mem_cons_of_mem _ first) b
        (List.mem_cons_of_mem _ second)) _ written.2.1.2
      intro other member
      obtain ⟨held', row', there', advanced'⟩ := rows other (List.mem_cons_of_mem _ member)
      by_cases here : order.cloid = other.cloid
      · have same := unique order List.mem_cons_self other (List.mem_cons_of_mem _ member) here
        subst same
        exact ⟨Dict.get_set_self _ _ _, order, Dict.get_set_self _ _ _, succession.refl order⟩
      · exact ⟨(Dict.get_set_ne _ _ here).trans held', row',
          (Dict.get_set_ne _ _ here).trans there', advanced'⟩

omit succession in
theorem linked_foldl {cache : Cache} {store : Store} {marked : List Order}
    (linked : Linked R cache store)
    (succeeds : ∀ order ∈ marked, ∀ row, store.orders.get order.cloid = some row → R row order) :
    Linked R (marked.foldl Cache.remember cache) store := by
  induction marked generalizing cache with
  | nil => exact linked
  | cons order rest ih =>
      exact ih (linked.remember (succeeds order List.mem_cons_self)) fun o member =>
        succeeds o (List.mem_cons_of_mem _ member)

omit succession in
/-- Each of several sagas remembered is what memory holds of it. -/
theorem held_foldl {marked : List Order}
    (unique : ∀ order ∈ marked, ∀ other ∈ marked, order.cloid = other.cloid → order = other) :
    ∀ (cache : Cache) (order : Order), (order ∈ marked ∨
        (cache.orders.get order.cloid = some order ∧
          ∀ other ∈ marked, other.cloid = order.cloid → other = order)) →
      (marked.foldl Cache.remember cache).orders.get order.cloid = some order := by
  induction marked with
  | nil =>
      rintro cache order (absent | ⟨held, _⟩)
      · cases absent
      · exact held
  | cons first rest ih =>
      intro cache order start
      rw [List.foldl_cons]
      apply ih fun a one b two => unique a (List.mem_cons_of_mem _ one) b
        (List.mem_cons_of_mem _ two)
      by_cases later : order ∈ rest
      · exact Or.inl later
      · right
        rcases start with member | ⟨held, same⟩
        · rcases List.mem_cons.mp member with rfl | member
          · refine ⟨Dict.get_set_self _ _ _, fun other there => ?_⟩
            exact unique other (List.mem_cons_of_mem _ there) order List.mem_cons_self
          · exact absurd member later
        · refine ⟨?_, fun other there => same other (List.mem_cons_of_mem _ there)⟩
          by_cases here : first.cloid = order.cloid
          · rw [same first List.mem_cons_self here]
            exact Dict.get_set_self _ _ _
          · exact (Dict.get_set_ne _ _ here).trans held

theorem onCancelAll_quiet (synced : process.Synced config (fun _ => False))
    (linked : Linked R process.memory.cache process.store) {signal : CancelAllSignal} :
    Along perform (Quiet R Opens Sends) process (onCancelAll process.memory signal nowNs).effects := by
  simp only [onCancelAll]
  generalize hmarked : ((Cache.openOrders (process.memory.cache.raiseSeq signal.strategyId
    signal.seq) (some signal.strategyId) (some signal.symbol)).filterMap fun order =>
      order.requestCancelAll signal.signalId nowNs) = marked
  have source : ∀ order ∈ marked, ∃ cached,
      process.memory.cache.orders.get order.cloid = some cached ∧
        cached.requestCancelAll signal.signalId nowNs = some order := by
    intro order member
    rw [← hmarked] at member
    obtain ⟨cached, listed, requested⟩ := List.mem_filterMap.mp member
    have value : cached ∈ process.memory.cache.orders.values := List.mem_of_mem_filter listed
    obtain ⟨c, held⟩ := (Dict.mem_values _ _).mp value
    have keyed : order.cloid = c :=
      (Order.requestCancelAll_sameSaga requested).cloid.trans (synced.orders.cacheKeyed c cached held)
    rw [keyed]
    exact ⟨cached, held, requested⟩
  have unique : ∀ order ∈ marked, ∀ other ∈ marked, order.cloid = other.cloid → order = other := by
    intro order first other second same
    obtain ⟨cached, held, requested⟩ := source order first
    obtain ⟨cached', held', requested'⟩ := source other second
    rw [← same, held] at held'
    cases held'
    exact Option.some.inj (requested.symm.trans requested')
  have rows : ∀ order ∈ marked, ∃ row, process.store.orders.get order.cloid = some row ∧
      R row order := by
    intro order member
    obtain ⟨cached, held, requested⟩ := source order member
    refine ⟨cached, ?_, succession.marked (Order.requestCancelAll_sameSaga requested)⟩
    rw [← synced.orders.orders _ not_false]
    exact held
  have raisedRows : (process.store.raiseSeq signal.strategyId signal.seq).orders =
      process.store.orders := process.store.raiseSeq_orders _ _
  have raisedLinked : Linked R (process.memory.cache.raiseSeq signal.strategyId signal.seq)
      (process.store.raiseSeq signal.strategyId signal.seq) := by
    intro c order row held there
    rw [raisedRows] at there
    exact linked c order row held there
  have markedLinked : Linked R (marked.foldl Cache.remember
      (process.memory.cache.raiseSeq signal.strategyId signal.seq))
      (process.store.raiseSeq signal.strategyId signal.seq) := by
    apply linked_foldl raisedLinked
    intro order member row there
    rw [raisedRows] at there
    obtain ⟨row', there', advanced⟩ := rows order member
    rw [there] at there'
    cases there'
    exact advanced
  rw [along_append, along_append, along_append]
  refine ⟨⟨⟨⟨trivial, ⟨rfl, raisedLinked⟩, trivial⟩, ⟨rfl, markedLinked⟩, trivial⟩, ?_⟩, ?_⟩
  · apply along_checkpointEach succession marked unique _ markedLinked
    intro order member
    obtain ⟨row, there, advanced⟩ := rows order member
    refine ⟨held_foldl unique _ order (Or.inl member), row, ?_, advanced⟩
    exact (congrArg (fun orders => Dict.get orders order.cloid) raisedRows).trans there
  · split
    · trivial
    · exact ⟨trivial, trivial⟩

omit succession in
/-- A cached saga has a row: the one being sent had its `PENDING` row written. -/
theorem row_of_held (synced : process.Synced config stale)
    (sentRow : ∀ c, stale c → (process.store.orders.get c).isSome = true) {c : Cloid}
    {order : Order} (held : process.memory.cache.orders.get c = some order) :
    (process.store.orders.get c).isSome = true := by
  by_cases waiting : stale c
  · exact sentRow c waiting
  · rw [← synced.orders.orders c waiting, held]
    rfl

theorem operatorMarks_quiet (resting : List Resting) :
    ∀ process : Process, process.Synced config stale →
      Linked R process.memory.cache process.store →
      (∀ c, stale c → (process.store.orders.get c).isSome = true) →
      Along perform (Quiet R Opens Sends) process (operatorMarks process.memory nowNs resting).1 := by
  induction resting with
  | nil => intro _ _ _ _; trivial
  | cons named rest ih =>
      intro process synced linked sentRow
      cases named with
      | external symbol venueOid => exact ih process synced linked sentRow
      | ours cloid symbol venueOid =>
          simp only [operatorMarks]
          split
          · exact ih process synced linked sentRow
          · rename_i order held
            have same := order.markOperatorCancel_sameSaga nowNs
            have marked : Along perform (Quiet R Opens Sends) process
                (.memory (process.memory.remember (order.markOperatorCancel nowNs)) ::
                  checkpoint (process.memory.remember (order.markOperatorCancel nowNs))
                    (order.markOperatorCancel nowNs) nowNs) :=
              along_rewrite succession
                (same.cloid.trans (synced.orders.cacheKeyed _ order held)) rfl held
                (row_of_held synced sentRow held) linked linked (succession.marked same)
            refine along_append.mpr ⟨marked, ih _ (synced.rewrite _ nowNs)
              marked.2.2.1.2 ?_⟩
            exact fun c waiting => play_orders_isSome _ (sentRow c waiting)

theorem cancelForOperator_quiet {resting : List Resting} (synced : process.Synced config stale)
    (linked : Linked R process.memory.cache process.store)
    (sentRow : ∀ c, stale c → (process.store.orders.get c).isSome = true) :
    Along perform (Quiet R Opens Sends) process
      (cancelForOperator process.memory resting nowNs).effects := by
  have marks : Along perform (Quiet R Opens Sends) process
      (operatorMarks process.memory nowNs resting).1 :=
    operatorMarks_quiet succession resting process synced linked sentRow
  have whole : Along perform (Quiet R Opens Sends) process
      ((operatorMarks process.memory nowNs resting).1 ++
        [.cancel (operatorMarks process.memory nowNs resting).2]) :=
    along_append.mpr ⟨marks, trivial, trivial⟩
  exact whole

theorem onStatus_quiet (synced : process.Synced config (fun _ => False))
    (linked : Linked R process.memory.cache process.store) {report : OrderStatusReport} :
    Along perform (Quiet R Opens Sends) process (onStatus process.memory report nowNs).effects := by
  simp only [onStatus]
  split
  · trivial
  · rename_i order held
    split
    · trivial
    · split
      · trivial
      · rename_i event mapped
        split
        · trivial
        · trivial
        · rename_i advanced applied
          obtain ⟨_, legal, rfl⟩ := Order.apply_eq_some applied
          obtain ⟨named, state, _⟩ := statusEvent_eq_some mapped
          have row : (process.store.orders.get report.cloid).isSome = true := by
            rw [← synced.orders.orders _ not_false, ← Cache.getOrder, held]
            rfl
          have noDenial : event.state ≠ .denied := by
            rw [state]
            intro denied
            rw [statusEvent, denied] at mapped
            cases mapped
          have keyed : (order.enter event).cloid = report.cloid :=
            synced.orders.cacheKeyed _ order held
          exact along_append.mpr ⟨along_rewrite succession keyed rfl held row linked linked
            (succession.entered ⟨_, named⟩ noDenial legal), trivial, trivial⟩

theorem afterSend_quiet {cloid : Cloid} (synced : process.Synced config stale)
    (linked : Linked R process.memory.cache process.store)
    (row : (process.store.orders.get cloid).isSome = true) :
    Along perform (Quiet R Opens Sends) process (afterSend process.memory cloid nowNs).effects := by
  simp only [afterSend]
  split
  · trivial
  · rename_i order held
    have keyed := synced.orders.cacheKeyed cloid order held
    refine along_checkpoint succession ⟨?_, ?_, ?_⟩ rfl linked
    · intro stored there
      rw [keyed] at there
      exact linked cloid order stored held there
    · intro absent
      rw [keyed] at absent
      rw [absent] at row
      cases row
    · intro cached there
      rw [keyed] at there
      have same : process.memory.cache.orders.get cloid = some order := held
      rw [same] at there
      cases there
      exact succession.refl order

omit succession in
theorem emit_quiet (linked : Linked R process.memory.cache process.store)
    (strategyId : StrategyId) (seq : ℕ) :
    Along perform (Quiet R Opens Sends) process (raiseSeq process.memory strategyId seq) := by
  refine ⟨trivial, ⟨rfl, ?_⟩, trivial⟩
  intro c order row held there
  rw [show (perform process (.write (.raiseSeq strategyId seq))).store.orders =
    process.store.orders from process.store.raiseSeq_orders _ _] at there
  exact linked c order row held there

end Handlers

end Tickwright.Engine
