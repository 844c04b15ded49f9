/-
# Engine.FillOrder -- the order fills arrive in does not matter

The venue's fills of one order reach `record_fill`, and from there `apply_fill`, in
any order and any number of times.  Entry price and realized cash do depend on that
order once the partition crosses zero: what was opened first is what gets closed.
What they have in common is the cash the fills took in, realized less the cost of
what is still open (`Position.worth`): each fill moves it by its own notional, in
every regime of the reducer (`booked_worth`).

* after any deliveries, the saga and the partition stand where the set of delivered
  trades puts them, whatever came twice and in which order (`Stands`,
  `Stands.deliver`);
* so two deliveries of one set end alike (`fills_in_any_order`).
-/
import Tickwright.Engine.Checkpoint
import Tickwright.Domain.OrderCalls
import Mathlib.Algebra.BigOperators.Group.Finset.Basic
import Mathlib.Algebra.Order.BigOperators.Group.Finset

namespace Tickwright.Engine

open Tickwright.Domain Tickwright.Theory Tickwright.Store

set_option autoImplicit false

/-- One fill of an order, as the venue made it. -/
structure OrderTrade where
  tradeId : String
  quantity : Decimal
  price : Decimal
  fee : Decimal
deriving DecidableEq

/-- One arrival of a fill.  A redelivery has stamps of its own. -/
structure Delivery where
  trade : OrderTrade
  tsEvent : Nanos
  tsInit : Nanos
  reconciliation : Bool

/-- `record_fill`, then `apply_fill` of the event it returned, then `project`. -/
def deliver (config : Config) (state : Order × Portfolio) (delivery : Delivery) :
    Except InvariantViolation (Order × Portfolio) :=
  let trade := delivery.trade
  match state.1.recordFill trade.tradeId trade.quantity trade.price trade.fee delivery.tsEvent
      delivery.tsInit delivery.reconciliation with
  | .error violation => .error violation
  | .ok none => .ok state
  | .ok (some (advanced, _)) =>
      match state.2.applyFill config
          (bookableOf advanced trade.tradeId trade.quantity trade.price trade.fee)
          advanced.side with
      | .error violation => .error violation
      | .ok (folded, change) => .ok (advanced, folded.project change)

/-- Fills one after the other. -/
def deliverAll (config : Config) (state : Order × Portfolio) :
    List Delivery → Except InvariantViolation (Order × Portfolio)
  | [] => .ok state
  | delivery :: rest =>
      match deliver config state delivery with
      | .error violation => .error violation
      | .ok next => deliverAll config next rest

/-- The partition an order's own fills go to. -/
def ownPartition (state : Order × Portfolio) : Position :=
  state.2.partition (some state.1.strategyId, state.1.symbol)

/-- Realized less what the open size cost. -/
def worth (position : Position) : Decimal :=
  position.realizedPnl - position.signedSize * position.entryPrice

/-! ## One fill on the ledger -/

theorem booked_worth (position : Position) (fill : BookableFill) (side : Side) :
    worth (position.booked fill side).1 =
      worth position - side.sign * fill.quantity * fill.price := by
  have stake := position.booked_stake fill side
  have fees := position.booked_fees fill side
  unfold Position.stake Position.gain Position.costBasis at stake
  unfold worth
  linarith

/-- A fill folded and projected: the partition it names is left as it was, or books it
once. -/
theorem applyFill_projected {config : Config} {portfolio after : Portfolio} {fill : BookableFill}
    {side : Side} {change : LedgerChange} (keyed : portfolio.Keyed)
    (folded : portfolio.applyFill config fill side = .ok (after, change)) :
    (after.project change).Keyed ∧
    ((fill.eventId ∈ (portfolio.partition (fill.owner, fill.symbol)).appliedEventIds ∧
        (after.project change).partition (fill.owner, fill.symbol) =
          portfolio.partition (fill.owner, fill.symbol)) ∨
      (fill.eventId ∉ (portfolio.partition (fill.owner, fill.symbol)).appliedEventIds ∧
        ∃ bucket, (after.project change).partition (fill.owner, fill.symbol) =
          { ((portfolio.partition (fill.owner, fill.symbol)).booked fill side).1 with
            isolatedCollateral := bucket })) := by
  have named : keyOf (portfolio.partition (fill.owner, fill.symbol)) = (fill.owner, fill.symbol) :=
    Portfolio.partition_owner keyed
  obtain ⟨_, filed, _, positions, moved⟩ := Portfolio.applyFill_cases folded
  have keyOf_eq : keyOf change.position = (fill.owner, fill.symbol) := by
    rcases moved with ⟨_, is, _⟩ | ⟨_, ⟨bucket, is⟩, _⟩
    · rw [is, named]
    · calc keyOf change.position
          = keyOf (portfolio.partition (fill.owner, fill.symbol)) := by
            rw [is]
            simp only [keyOf, Position.booked_owner, Position.booked_symbol]
        _ = (fill.owner, fill.symbol) := named
  have is : (after.project change).positions =
      portfolio.positions.set (fill.owner, fill.symbol) change.position := by
    unfold Portfolio.project LedgerChange.key
    rw [keyOf_eq]
    split
    · rename_i there
      rw [positions, if_pos there]
    · rename_i absent
      rw [positions, if_neg absent]
  have partition : (after.project change).partition (fill.owner, fill.symbol) =
      change.position := by
    unfold Portfolio.partition
    rw [is, Dict.get_set_self]
    rfl
  refine ⟨fun k position there => ?_, ?_⟩
  · rw [is, Dict.get_set] at there
    split at there
    · rename_i same
      cases there
      rw [keyOf_eq, same]
    · exact keyed k position there
  · rw [partition]
    rcases moved with ⟨seen, is, _⟩ | ⟨fresh, booked, _⟩
    · exact Or.inl ⟨seen, is⟩
    · exact Or.inr ⟨fresh, booked⟩

/-! ## One fill on the saga -/

section Recording

variable {order : Order} {trade : OrderTrade}

theorem recordFill_seen (positive : 0 < trade.quantity)
    (seen : EventId.fill order.cloid trade.tradeId ∈ order.appliedEventIds)
    (tsEvent tsInit : Nanos) (reconciliation : Bool) :
    order.recordFill trade.tradeId trade.quantity trade.price trade.fee tsEvent tsInit
      reconciliation = .ok none := by
  have deduped : order.apply (order.fillEvent trade.tradeId trade.quantity trade.price trade.fee
      tsEvent tsInit reconciliation) = .ok none := by
    unfold Order.apply
    rw [Order.fillEvent_eventId, if_pos seen]
  unfold Order.recordFill
  rw [if_neg (not_le.mpr positive)]
  simp only [deduped]
  rfl

theorem recordFill_new (positive : 0 < trade.quantity)
    (fresh : EventId.fill order.cloid trade.tradeId ∉ order.appliedEventIds)
    (legal : order.state.legalTransition
      (if order.quantity ≤ order.cumQty + trade.quantity then .filled else .partiallyFilled) = true)
    (tsEvent tsInit : Nanos) (reconciliation : Bool) :
    ∃ event, order.recordFill trade.tradeId trade.quantity trade.price trade.fee tsEvent tsInit
        reconciliation = .ok (some (order.enter event, event)) ∧
      event.eventId = .fill order.cloid trade.tradeId ∧
      event.state =
        (if order.quantity ≤ order.cumQty + trade.quantity then .filled else .partiallyFilled) ∧
      (order.enter event).cumQty = order.cumQty + trade.quantity := by
  have applied : order.apply (order.fillEvent trade.tradeId trade.quantity trade.price trade.fee
      tsEvent tsInit reconciliation) = .ok (some (order.enter (order.fillEvent trade.tradeId
      trade.quantity trade.price trade.fee tsEvent tsInit reconciliation))) := by
    unfold Order.apply
    rw [Order.fillEvent_eventId, if_neg fresh, Order.fillEvent_state, if_pos legal]
  refine ⟨order.fillEvent trade.tradeId trade.quantity trade.price trade.fee tsEvent tsInit
    reconciliation, ?_, Order.fillEvent_eventId .., Order.fillEvent_state .., rfl⟩
  unfold Order.recordFill
  rw [if_neg (not_le.mpr positive)]
  simp only [applied]
  rfl

end Recording

/-! ## Where the delivered trades put things -/

/-- The trades among those delivered that the saga had yet to book. -/
def newTo (order : Order) (seen : Finset OrderTrade) : Finset OrderTrade :=
  seen.filter fun trade => EventId.fill order.cloid trade.tradeId ∉ order.appliedEventIds

/-- Of these, the ones its partition had yet to book. -/
def newOn (start : Order × Portfolio) (seen : Finset OrderTrade) : Finset OrderTrade :=
  (newTo start.1 seen).filter fun trade =>
    EventId.fill start.1.cloid trade.tradeId ∉ (ownPartition start).appliedEventIds

/-- The ids a set of trades files. -/
def idsOf (order : Order) (trades : Finset OrderTrade) : Finset EventId :=
  trades.image fun trade => EventId.fill order.cloid trade.tradeId

/-- The state a set of booked trades leaves a working order in. -/
def stateAfter (order : Order) (booked : Finset OrderTrade) : OrderState :=
  if booked = ∅ then order.state
  else if order.quantity ≤ ∑ trade ∈ booked, trade.quantity then .filled
  else .partiallyFilled

/-- What is read of the saga and of its partition is decided by the set of trades
delivered. -/
structure Stands (start : Order × Portfolio) (seen : Finset OrderTrade)
    (now : Order × Portfolio) : Prop where
  cloid : now.1.cloid = start.1.cloid
  strategy : now.1.strategyId = start.1.strategyId
  symbol : now.1.symbol = start.1.symbol
  side : now.1.side = start.1.side
  quantity : now.1.quantity = start.1.quantity
  keyed : now.2.Keyed
  ids : now.1.appliedEventIds = start.1.appliedEventIds ∪ idsOf start.1 (newTo start.1 seen)
  cum : now.1.cumQty = ∑ trade ∈ newTo start.1 seen, trade.quantity
  state : now.1.state = stateAfter start.1 (newTo start.1 seen)
  filed : (ownPartition now).appliedEventIds =
    (ownPartition start).appliedEventIds ∪ idsOf start.1 (newTo start.1 seen)
  size : (ownPartition now).signedSize = (ownPartition start).signedSize +
    ∑ trade ∈ newOn start seen, start.1.side.sign * trade.quantity
  fees : (ownPartition now).fees = (ownPartition start).fees + ∑ trade ∈ newOn start seen, trade.fee
  worth : worth (ownPartition now) = worth (ownPartition start) -
    ∑ trade ∈ newOn start seen, start.1.side.sign * trade.quantity * trade.price

/-- An order at work that has booked nothing, and the fills the venue may make of it. -/
structure Fillable (order : Order) (fills : Finset OrderTrade) : Prop where
  working : order.state = .submitted ∨ order.state = .live
  shape : InShape order.quantity order.cumQty order.state
  distinct : Set.InjOn OrderTrade.tradeId fills
  positive : ∀ trade ∈ fills, 0 < trade.quantity
  total : ∑ trade ∈ fills, trade.quantity ≤ order.quantity

section Standing

variable {config : Config} {start now : Order × Portfolio} {fills seen : Finset OrderTrade}
  {trade : OrderTrade}

theorem Fillable.unbooked {order : Order} (fillable : Fillable order fills) :
    order.cumQty = 0 := by
  have shape := fillable.shape
  rcases fillable.working with is | is
  · rw [is] at shape
    exact shape
  · rw [is] at shape
    exact shape

theorem stands_start (fillable : Fillable start.1 fills) (keyed : start.2.Keyed) :
    Stands start ∅ start := by
  refine ⟨rfl, rfl, rfl, rfl, rfl, keyed, ?_, ?_, rfl, ?_, ?_, ?_, ?_⟩
  · simp [newTo, idsOf]
  · simp [newTo, fillable.unbooked]
  · simp [newTo, idsOf]
  · simp [newTo, newOn]
  · simp [newTo, newOn]
  · simp [newTo, newOn]

/-- A trade the saga had booked before any delivery counts for nothing. -/
theorem newTo_insert_old (old : EventId.fill start.1.cloid trade.tradeId ∈ start.1.appliedEventIds) :
    newTo start.1 (insert trade seen) = newTo start.1 seen := by
  unfold newTo
  rw [Finset.filter_insert, if_neg (not_not.mpr old)]

theorem newTo_insert_new
    (new : EventId.fill start.1.cloid trade.tradeId ∉ start.1.appliedEventIds) :
    newTo start.1 (insert trade seen) = insert trade (newTo start.1 seen) := by
  unfold newTo
  rw [Finset.filter_insert, if_pos new]

theorem mem_idsOf {order : Order} {trades : Finset OrderTrade} {tradeId : String} :
    EventId.fill order.cloid tradeId ∈ idsOf order trades ↔
      ∃ trade ∈ trades, trade.tradeId = tradeId := by
  simp [idsOf]

/-- What stands does not change where a delivery adds no trade to book. -/
theorem Stands.congr {more : Finset OrderTrade} (stands : Stands start seen now)
    (same : newTo start.1 more = newTo start.1 seen) : Stands start more now := by
  have alsoOn : newOn start more = newOn start seen := by
    unfold newOn
    rw [same]
  obtain ⟨cloid, strategy, symbol, side, quantity, keyed, ids, cum, state, filed, size, fees,
    worth⟩ := stands
  rw [← same] at ids cum state filed
  rw [← alsoOn] at size fees worth
  exact ⟨cloid, strategy, symbol, side, quantity, keyed, ids, cum, state, filed, size, fees, worth⟩

/-- A trade whose id is on the saga has been delivered, or was booked before. -/
theorem Stands.seen_again (stands : Stands start seen now) (fillable : Fillable start.1 fills)
    (within : seen ⊆ fills) (member : trade ∈ fills)
    (again : EventId.fill now.1.cloid trade.tradeId ∈ now.1.appliedEventIds) :
    newTo start.1 (insert trade seen) = newTo start.1 seen := by
  rw [stands.cloid, stands.ids, Finset.mem_union, mem_idsOf] at again
  rcases again with old | ⟨other, there, sameId⟩
  · exact newTo_insert_old old
  · have delivered : other ∈ seen := (Finset.mem_filter.mp there).1
    have is : other = trade :=
      fillable.distinct (within delivered) member sameId
    rw [Finset.insert_eq_of_mem (is ▸ delivered)]

/-- One that is not finds the saga at work: the trades before it leave room for it. -/
theorem Stands.legal (stands : Stands start seen now) (fillable : Fillable start.1 fills)
    (within : seen ⊆ fills) (member : trade ∈ fills)
    (new : trade ∉ newTo start.1 seen)
    (fresh : EventId.fill start.1.cloid trade.tradeId ∉ start.1.appliedEventIds) :
    now.1.state.legalTransition
      (if now.1.quantity ≤ now.1.cumQty + trade.quantity then .filled else .partiallyFilled) =
        true := by
  have booked : insert trade (newTo start.1 seen) ⊆ fills := by
    rw [← newTo_insert_new fresh]
    exact (Finset.filter_subset _ _).trans (Finset.insert_subset member within)
  have sum : ∑ trade ∈ insert trade (newTo start.1 seen), trade.quantity ≤ start.1.quantity :=
    (Finset.sum_le_sum_of_subset_of_nonneg booked
      fun other there _ => (fillable.positive other there).le).trans fillable.total
  rw [Finset.sum_insert new] at sum
  have some_ := fillable.positive trade member
  have room : ¬ start.1.quantity ≤ ∑ trade ∈ newTo start.1 seen, trade.quantity := by linarith
  rw [stands.state]
  unfold stateAfter
  rw [if_neg room]
  split
  · rcases fillable.working with is | is
    · rw [is]
      split <;> rfl
    · rw [is]
      split <;> rfl
  · split <;> rfl

/-- What one booking does to the partition the trades before it left. -/
theorem Stands.book (stands : Stands start seen now) {after : Position} {fill : BookableFill}
    (fresh : EventId.fill start.1.cloid trade.tradeId ∉ start.1.appliedEventIds)
    (undelivered : EventId.fill start.1.cloid trade.tradeId ∉ idsOf start.1 (newTo start.1 seen))
    (id : fill.eventId = .fill start.1.cloid trade.tradeId) (size : fill.quantity = trade.quantity)
    (price : fill.price = trade.price) (fee : fill.fee = trade.fee)
    (booking : (fill.eventId ∈ (ownPartition now).appliedEventIds ∧ after = ownPartition now) ∨
      (fill.eventId ∉ (ownPartition now).appliedEventIds ∧ ∃ bucket,
        after = { ((ownPartition now).booked fill start.1.side).1 with
          isolatedCollateral := bucket })) :
    after.appliedEventIds = (ownPartition start).appliedEventIds ∪
        idsOf start.1 (newTo start.1 (insert trade seen)) ∧
      after.signedSize = (ownPartition start).signedSize +
        ∑ trade ∈ newOn start (insert trade seen), start.1.side.sign * trade.quantity ∧
      after.fees = (ownPartition start).fees +
        ∑ trade ∈ newOn start (insert trade seen), trade.fee ∧
      Engine.worth after = Engine.worth (ownPartition start) -
        ∑ trade ∈ newOn start (insert trade seen),
          start.1.side.sign * trade.quantity * trade.price := by
  have ids : idsOf start.1 (newTo start.1 (insert trade seen)) =
      insert (.fill start.1.cloid trade.tradeId) (idsOf start.1 (newTo start.1 seen)) := by
    rw [newTo_insert_new fresh, idsOf, Finset.image_insert, idsOf]
  have new : trade ∉ newTo start.1 seen := fun there => undelivered (mem_idsOf.mpr ⟨_, there, rfl⟩)
  rw [id, stands.filed, Finset.mem_union] at booking
  rcases booking with ⟨old | there, is⟩ | ⟨unfiled, bucket, is⟩
  · -- Its partition had booked the trade before any delivery.
    have sameOn : newOn start (insert trade seen) = newOn start seen := by
      unfold newOn
      rw [newTo_insert_new fresh, Finset.filter_insert, if_neg (not_not.mpr old)]
    rw [is, sameOn, ids, stands.filed]
    refine ⟨?_, stands.size, stands.fees, stands.worth⟩
    rw [Finset.union_insert, Finset.insert_eq_of_mem (Finset.mem_union_left _ old)]
  · exact absurd there undelivered
  · have addsOn : newOn start (insert trade seen) = insert trade (newOn start seen) := by
      unfold newOn
      rw [newTo_insert_new fresh, Finset.filter_insert,
        if_pos fun old => unfiled (Or.inl old)]
    have newHere : trade ∉ newOn start seen := fun there => new (Finset.mem_filter.mp there).1
    rw [addsOn, ids, Finset.sum_insert newHere, Finset.sum_insert newHere,
      Finset.sum_insert newHere]
    have moved := (ownPartition now).booked_signedSize fill start.1.side
    have charged := (ownPartition now).booked_fees fill start.1.side
    have took := booked_worth (ownPartition now) fill start.1.side
    rw [size, stands.size] at moved
    rw [fee, stands.fees] at charged
    rw [size, price, stands.worth] at took
    subst is
    refine ⟨?_, ?_, ?_, ?_⟩
    · have filed := (ownPartition now).booked_appliedEventIds fill start.1.side
      rw [id, stands.filed] at filed
      rw [Finset.union_insert]
      exact filed
    · exact moved.trans (by ring)
    · exact charged.trans (by ring)
    · exact took.trans (by ring)

variable (config) in
/-- **One delivery leaves things where the trades delivered put them.** -/
theorem Stands.deliver (stands : Stands start seen now) (fillable : Fillable start.1 fills)
    (within : seen ⊆ fills) {delivery : Delivery} (member : delivery.trade ∈ fills) :
    ∃ next, deliver config now delivery = .ok next ∧
      Stands start (insert delivery.trade seen) next := by
  obtain ⟨trade, tsEvent, tsInit, reconciliation⟩ := delivery
  have positive := fillable.positive trade member
  by_cases again : EventId.fill now.1.cloid trade.tradeId ∈ now.1.appliedEventIds
  · refine ⟨now, ?_, stands.congr (stands.seen_again fillable within member again)⟩
    unfold Engine.deliver
    simp only [recordFill_seen positive again]
  have absent := again
  rw [stands.cloid, stands.ids, Finset.mem_union, mem_idsOf, not_or] at absent
  obtain ⟨fresh, undelivered⟩ := absent
  have new : trade ∉ newTo start.1 seen := fun there => undelivered ⟨trade, there, rfl⟩
  have adds : newTo start.1 (insert trade seen) = insert trade (newTo start.1 seen) :=
    newTo_insert_new fresh
  obtain ⟨event, recorded, id, state, cum⟩ := recordFill_new positive again
    (stands.legal fillable within member new fresh) tsEvent tsInit reconciliation
  have some_ : 0 < (bookableOf (now.1.enter event) trade.tradeId trade.quantity trade.price
      trade.fee).quantity := positive
  obtain ⟨after, change, folded⟩ : ∃ after change, now.2.applyFill config
      (bookableOf (now.1.enter event) trade.tradeId trade.quantity trade.price trade.fee)
      (now.1.enter event).side = .ok (after, change) :=
    Portfolio.applyFill_defined stands.keyed some_
  obtain ⟨keyed, booking⟩ := applyFill_projected stands.keyed folded
  have side : (now.1.enter event).side = start.1.side := stands.side
  rw [side] at booking
  have idIs : EventId.fill (now.1.enter event).cloid trade.tradeId =
      .fill start.1.cloid trade.tradeId := by
    rw [Order.enter_cloid, stands.cloid]
  have unlisted : EventId.fill start.1.cloid trade.tradeId ∉
      idsOf start.1 (newTo start.1 seen) := fun there => undelivered (mem_idsOf.mp there)
  obtain ⟨filed, size, fees, worth⟩ :=
    stands.book fresh unlisted idIs rfl rfl rfl booking
  refine ⟨(now.1.enter event, after.project change), ?_, stands.cloid, stands.strategy,
    stands.symbol, stands.side, stands.quantity, keyed, ?_, ?_, ?_, filed, size, fees, worth⟩
  · unfold Engine.deliver
    simp only [recorded, folded]
  · rw [Order.enter_appliedEventIds, id, stands.cloid, stands.ids, adds, idsOf, idsOf,
      Finset.image_insert, Finset.union_insert]
  · rw [cum, stands.cum, adds, Finset.sum_insert new]
    ring
  · rw [Order.enter_state, state, stands.quantity, stands.cum, adds]
    unfold stateAfter
    rw [if_neg (Finset.insert_ne_empty _ _), Finset.sum_insert new, add_comm]

variable (config) in
/-- **Any deliveries leave things where the trades delivered put them.** -/
theorem stands_deliverAll (fillable : Fillable start.1 fills) {deliveries : List Delivery}
    (members : ∀ delivery ∈ deliveries, delivery.trade ∈ fills) (within : seen ⊆ fills)
    (stands : Stands start seen now) :
    ∃ last, deliverAll config now deliveries = .ok last ∧
      Stands start (seen ∪ (deliveries.map Delivery.trade).toFinset) last := by
  induction deliveries generalizing now seen with
  | nil =>
      refine ⟨now, rfl, ?_⟩
      rw [List.map_nil, List.toFinset_nil, Finset.union_empty]
      exact stands
  | cons delivery rest ih =>
      have member := members delivery List.mem_cons_self
      obtain ⟨next, delivered, stands⟩ :=
        stands.deliver config fillable within member
      obtain ⟨last, rest, stands⟩ :=
        ih (fun other there => members other (List.mem_cons_of_mem _ there))
          (Finset.insert_subset member within) stands
      refine ⟨last, ?_, ?_⟩
      · simp only [deliverAll, delivered]
        exact rest
      · rw [List.map_cons, List.toFinset_cons, Finset.union_insert, ← Finset.insert_union]
        exact stands

end Standing

/-- **Fill delivery order does not matter.**  Two deliveries of one set of fills, in
any order and with any repeats, both go through and end alike. -/
theorem fills_in_any_order (config : Config) {order : Order} {portfolio : Portfolio}
    {fills : Finset OrderTrade} (fillable : Fillable order fills) (keyed : portfolio.Keyed)
    (one two : List Delivery)
    (first : ∀ trade, trade ∈ one.map Delivery.trade ↔ trade ∈ fills)
    (second : ∀ trade, trade ∈ two.map Delivery.trade ↔ trade ∈ fills) :
    ∃ a b, deliverAll config (order, portfolio) one = .ok a ∧
      deliverAll config (order, portfolio) two = .ok b ∧
      a.1.state = b.1.state ∧ a.1.cumQty = b.1.cumQty ∧
      a.1.appliedEventIds = b.1.appliedEventIds ∧
      (ownPartition a).signedSize = (ownPartition b).signedSize ∧
      (ownPartition a).fees = (ownPartition b).fees ∧
      (ownPartition a).realizedPnl - (ownPartition a).signedSize * (ownPartition a).entryPrice =
        (ownPartition b).realizedPnl - (ownPartition b).signedSize * (ownPartition b).entryPrice := by
  have ends : ∀ deliveries : List Delivery,
      (∀ trade, trade ∈ deliveries.map Delivery.trade ↔ trade ∈ fills) →
      ∃ last, deliverAll config (order, portfolio) deliveries = .ok last ∧
        Stands (order, portfolio) fills last := by
    intro deliveries covers
    have start : Stands (order, portfolio) ∅ (order, portfolio) := stands_start fillable keyed
    obtain ⟨last, delivered, stands⟩ := stands_deliverAll config fillable
      (fun delivery there => (covers _).mp (List.mem_map_of_mem there))
      (Finset.empty_subset _) start
    refine ⟨last, delivered, ?_⟩
    have all : (deliveries.map Delivery.trade).toFinset = fills := by
      ext trade
      rw [List.mem_toFinset, covers]
    rw [Finset.empty_union, all] at stands
    exact stands
  obtain ⟨a, deliveredA, standsA⟩ := ends one first
  obtain ⟨b, deliveredB, standsB⟩ := ends two second
  refine ⟨a, b, deliveredA, deliveredB, ?_, ?_, ?_, ?_, ?_, ?_⟩
  · rw [standsA.state, standsB.state]
  · rw [standsA.cum, standsB.cum]
  · rw [standsA.ids, standsB.ids]
  · rw [standsA.size, standsB.size]
  · rw [standsA.fees, standsB.fees]
  · exact standsA.worth.trans standsB.worth.symm

namespace Sample

/-- Long 1 at 100, as the partition was left. -/
def longOne : Portfolio where
  account := { accountId := "main", genesisCollateral := 0, genesisTsNs := 0, cash := 0 }
  positions := Dict.empty.set (some operator, "BTC")
    { owner := some operator, symbol := "BTC", signedSize := 1, entryPrice := 100 }

/-- A sell of 3 at work. -/
def sellThree : Order where
  cloid := "0xthree"
  strategyId := operator
  signalId := ⟨operator, "BTC", 1⟩
  symbol := "BTC"
  side := .sell
  quantity := 3
  orderType := .market
  state := .live

def twoSold : OrderTrade := ⟨"t1", 2, 110, 1⟩

def lastSold : OrderTrade := ⟨"t2", 1, 90, 0⟩

theorem longOne_keyed : longOne.Keyed := by
  intro k position there
  simp only [longOne, Dict.get_set] at there
  split at there
  · rename_i same
    cases there
    rw [← same]
    rfl
  · cases there

theorem sellThree_fillable : Fillable sellThree {twoSold, lastSold} := by
  refine ⟨Or.inr rfl, rfl, ?_, ?_, ?_⟩
  · intro a memberA b memberB
    simp only [Finset.coe_insert, Finset.coe_singleton, Set.mem_insert_iff,
      Set.mem_singleton_iff] at memberA memberB
    rcases memberA with rfl | rfl <;> rcases memberB with rfl | rfl <;> decide
  · decide +kernel
  · decide +kernel

/-- The flip at 110 or at 90, the second one with a redelivery: they end alike. -/
theorem flips_alike : ∃ a b,
    deliverAll { spec := { accountId := "main" } } (sellThree, longOne)
      [⟨twoSold, 1, 1, false⟩, ⟨lastSold, 2, 2, false⟩] = .ok a ∧
    deliverAll { spec := { accountId := "main" } } (sellThree, longOne)
      [⟨lastSold, 2, 1, false⟩, ⟨twoSold, 1, 2, false⟩, ⟨lastSold, 2, 3, true⟩] = .ok b ∧
    a.1.state = b.1.state := by
  obtain ⟨a, b, one, two, state, _⟩ := fills_in_any_order { spec := { accountId := "main" } }
    sellThree_fillable longOne_keyed
    [⟨twoSold, 1, 1, false⟩, ⟨lastSold, 2, 2, false⟩]
    [⟨lastSold, 2, 1, false⟩, ⟨twoSold, 1, 2, false⟩, ⟨lastSold, 2, 3, true⟩]
    (fun trade => by simp) (fun trade => by simp [or_comm])
  exact ⟨a, b, one, two, state⟩

end Sample

end Tickwright.Engine
