/-
# Engine.PositionCap -- the position cap over whole runs

The guard judges a placement against the account net and the open remainders of
its own side only, and lets an order that shrinks the position past every cap.
What makes that enough is a bound on both sides at once: `exposure` is the
position one side's open orders could still carry the account to, and no step
takes either side's past the cap.

* a fill moves its side's exposure from the remainder to the net, and the other
  side's only down (`Eased.fill`);
* a terminal order drops its remainder (`Eased.fades`);
* an admitted placement adds to one side, and the guard saw exactly that sum
  (`exposure_of_reading`).

`run_capped` carries it over every run of placements, fills, cancels, rejections
and failures.
-/
import Tickwright.Engine.Guard
import Tickwright.Engine.Life
import Tickwright.Engine.Batch
import Mathlib.Data.List.ReduceOption

namespace Tickwright.Engine

open Tickwright.Domain Tickwright.Theory Tickwright.Store

set_option autoImplicit false

/-! ## The machine -/

/-- A life beside the guard that judges its placements. -/
structure Guarded where
  life : Life
  guard : RealGuard

/-- What can happen to the orders of a guarded life. -/
inductive GuardedLabel
  | place (gates : Gates) (signal : PlaceSignal) (mark : Option MarkTick) (nowNs : Nanos)
  | cancel (signal : CancelSignal) (nowNs : Nanos)
  | cancelAll (signal : CancelAllSignal) (nowNs : Nanos)
  | operatorCancel (resting : List Resting) (nowNs : Nanos)
  /-- A fill, or an acknowledgement, cancel, rejection or failure. -/
  | report (report : ExecutionReport) (nowNs : Nanos)
  | sent (nowNs : Nanos)

/-- Whether a signal reaches the guard: it is new, and no gate refuses it. -/
def reachesGuard (gates : Gates) (memory : Memory) (cloid : Cloid) (signal : PlaceSignal) : Bool :=
  (memory.cache.getOrder cloid).isNone && gates.barrierCleared &&
    !(decide (signal.strategyId = operator) && !signal.isFlatten) &&
    !(gates.exitRun && decide (signal.strategyId ≠ operator))

/-- The guard's verdict on a signal that reaches it.  No other verdict is read. -/
def judge (guard : RealGuard) (gates : Gates) (memory : Memory) (cloid : Cloid)
    (signal : PlaceSignal) (mark : Option MarkTick) (nowNs : Nanos) :
    Except InvariantViolation (GuardDecision × RealGuard) :=
  if reachesGuard gates memory cloid signal then
    guard.check signal
      (preTradeReading memory signal.symbol signal.side signal.strategyId mark) nowNs
  else .ok (.denied "", guard)

/-- The guarded machine. -/
def guarded (deriveCloid : SignalId → Cloid) (config : Config) : Machine Guarded GuardedLabel where
  step state label :=
    let engineStep := fun label =>
      ((engine deriveCloid config).step state.life label).map fun life => { state with life := life }
    match label with
    | .place gates signal mark nowNs =>
        match judge state.guard gates state.life.process.memory (deriveCloid signal.signalId) signal
            mark nowNs with
        | .error _ => none
        | .ok (verdict, moved) =>
            ((engine deriveCloid config).step state.life
              (.handle (.place gates signal verdict) nowNs)).map fun life => ⟨life, moved⟩
    | .cancel signal nowNs => engineStep (.handle (.cancel signal) nowNs)
    | .cancelAll signal nowNs => engineStep (.handle (.cancelAll signal) nowNs)
    | .operatorCancel resting nowNs => engineStep (.handle (.operatorCancel resting) nowNs)
    | .report report nowNs => engineStep (.handle (.report report) nowNs)
    | .sent nowNs => engineStep (.sent nowNs)

variable {deriveCloid : SignalId → Cloid} {config : Config} {symbol : Symbol} {cap : Decimal}

/-! ## Exposure -/

/-- Whether the order is open on the symbol. -/
def opensOn (symbol : Symbol) (order : Order) : Bool :=
  !order.isTerminal && decide (order.symbol = symbol)

/-- What an order may still fill on one side of a symbol. -/
def remainder (symbol : Symbol) (side : Side) (order : Order) : Decimal :=
  if opensOn symbol order = true ∧ order.side = side then order.quantity - order.cumQty else 0

/-- The sum of the open remainders on one side. -/
def openRemainder (cache : Cache) (symbol : Symbol) (side : Side) : Decimal :=
  cache.orders.sum (remainder symbol side)

/-- The position the open orders of one side could still carry the account to,
counted in that side's direction. -/
def exposure (memory : Memory) (symbol : Symbol) (side : Side) : Decimal :=
  side.sign * memory.portfolio.accountNet symbol + openRemainder memory.cache symbol side

theorem openOrders_on (cache : Cache) (symbol : Symbol) :
    cache.openOrders none (some symbol) = cache.orders.values.filter (opensOn symbol) := by
  apply List.filter_congr
  intro order _
  simp [opensOn]

/-- The reading's remainder is the sum over the open orders of its side. -/
theorem reading_openRemainder (memory : Memory) (symbol : Symbol) (side : Side)
    (strategyId : StrategyId) (mark : Option MarkTick) :
    (preTradeReading memory symbol side strategyId mark).openRemainder =
      openRemainder memory.cache symbol side := by
  simp only [preTradeReading, openRemainder, openOrders_on, Dict.sum]
  induction memory.cache.orders.values with
  | nil => rfl
  | cons order rest ih =>
      rw [List.map_cons, List.sum_cons, ← ih]
      by_cases opened : opensOn symbol order = true
      · rw [List.filter_cons_of_pos opened]
        by_cases same : order.side = side
        · rw [List.filter_cons_of_pos (by simpa using same), List.map_cons, List.sum_cons,
            remainder, if_pos ⟨opened, same⟩]
        · rw [List.filter_cons_of_neg (by simpa using same), remainder,
            if_neg fun both => same both.2, zero_add]
      · rw [List.filter_cons_of_neg opened, remainder, if_neg fun both => opened both.1, zero_add]

/-! ## What a step may leave -/

/-- An open order on the symbol is plain, and not filled past its quantity. -/
def Sizable (symbol : Symbol) (order : Order) : Prop :=
  opensOn symbol order = true → order.splitBasis = none ∧ order.cumQty ≤ order.quantity

/-- Every order held is one the cap can count on. -/
def AllSizable (symbol : Symbol) (cache : Cache) : Prop :=
  ∀ c order, cache.orders.get c = some order → Sizable symbol order

/-- The later saga has the same terms and sizes, and opens nothing that was
closed. -/
structure Fades (earlier later : Order) : Prop where
  symbol : later.symbol = earlier.symbol
  side : later.side = earlier.side
  quantity : later.quantity = earlier.quantity
  cumQty : later.cumQty = earlier.cumQty
  splitBasis : later.splitBasis = earlier.splitBasis
  closed : earlier.isTerminal = true → later.isTerminal = true

theorem Fades.refl (order : Order) : Fades order order := ⟨rfl, rfl, rfl, rfl, rfl, id⟩

theorem Fades.of_sameSaga {order marked : Order} (same : Order.SameSaga order marked) :
    Fades order marked := by
  have terms := same.terms
  simp only [Prod.mk.injEq] at terms
  obtain ⟨_, _, symbol, side, _, splitBasis, _⟩ := terms
  refine ⟨symbol, side, same.quantity, same.cumQty, splitBasis, fun closed => ?_⟩
  rw [Order.isTerminal, same.state]
  exact closed

theorem Fades.opensOn {earlier later : Order} (fades : Fades earlier later)
    (opened : opensOn symbol later = true) : opensOn symbol earlier = true := by
  simp only [Engine.opensOn, Bool.and_eq_true, Bool.not_eq_true', decide_eq_true_eq] at opened ⊢
  refine ⟨?_, fades.symbol.symm.trans opened.2⟩
  by_contra closed
  rw [fades.closed (by simpa using closed)] at opened
  cases opened.1

theorem remainder_nonneg {order : Order} (sizable : Sizable symbol order) (side : Side) :
    0 ≤ remainder symbol side order := by
  unfold remainder
  split
  · rename_i both
    exact sub_nonneg.mpr (sizable both.1).2
  · exact le_refl 0

theorem Fades.remainder_le {earlier later : Order} (fades : Fades earlier later)
    (sizable : Sizable symbol earlier) (side : Side) :
    remainder symbol side later ≤ remainder symbol side earlier := by
  by_cases both : Engine.opensOn symbol later = true ∧ later.side = side
  · have before : Engine.opensOn symbol earlier = true ∧ earlier.side = side :=
      ⟨fades.opensOn both.1, fades.side.symm.trans both.2⟩
    rw [remainder, if_pos both, remainder, if_pos before, fades.quantity, fades.cumQty]
  · rw [remainder, if_neg both]
    exact remainder_nonneg sizable side

theorem Fades.sizable {earlier later : Order} (fades : Fades earlier later)
    (sizable : Sizable symbol earlier) : Sizable symbol later := by
  intro opened
  have before := sizable (fades.opensOn opened)
  rw [fades.splitBasis, fades.quantity, fades.cumQty]
  exact before

/-- Every saga held later is closed, or is one held before that faded. -/
def Faded (before after : Cache) : Prop :=
  ∀ c order, after.orders.get c = some order →
    order.isTerminal = true ∨ ∃ earlier, before.orders.get c = some earlier ∧ Fades earlier order

theorem Faded.refl (cache : Cache) : Faded cache cache :=
  fun _ order held => Or.inr ⟨order, held, .refl order⟩

/-- One saga replaced by what it faded to, or by a closed one. -/
theorem Faded.set {before after next : Cache} (faded : Faded before after) {order : Order}
    (orders : next.orders = after.orders.set order.cloid order)
    (fits : order.isTerminal = true ∨
      ∃ earlier, before.orders.get order.cloid = some earlier ∧ Fades earlier order) :
    Faded before next := by
  intro c held there
  rw [orders, Dict.get_set] at there
  split at there
  · rename_i same
    cases there
    rw [← same]
    exact fits
  · exact faded c held there

theorem closed_sizable {order : Order} (closed : order.isTerminal = true) :
    Sizable symbol order := by
  intro opened
  simp [Engine.opensOn, closed] at opened

theorem Faded.allSizable {before after : Cache} (faded : Faded before after)
    (sizable : AllSizable symbol before) : AllSizable symbol after := by
  intro c order held
  rcases faded c order held with closed | ⟨earlier, there, fades⟩
  · exact closed_sizable closed
  · exact fades.sizable (sizable c earlier there)

/-- **Sagas that fade leave no more on either side.** -/
theorem Faded.openRemainder_le {before after : Cache} (faded : Faded before after)
    (sizable : AllSizable symbol before) (side : Side) :
    openRemainder after symbol side ≤ openRemainder before symbol side := by
  apply Dict.sum_le_sum
  intro c
  have nonneg : 0 ≤ (before.orders.get c).elim 0 (remainder symbol side) := by
    cases there : before.orders.get c with
    | none => exact le_refl 0
    | some order => exact remainder_nonneg (sizable c order there) side
  cases held : after.orders.get c with
  | none => exact nonneg
  | some order =>
      rcases faded c order held with closed | ⟨earlier, there, fades⟩
      · have nothing : remainder symbol side order = 0 := by
          simp [remainder, Engine.opensOn, closed]
        rw [Option.elim_some, nothing]
        exact nonneg
      · rw [there]
        exact fades.remainder_le (sizable c earlier there) side

/-- What carries the cap: both sides' exposure is under it. -/
structure Capped (symbol : Symbol) (cap : Decimal) (memory : Memory) : Prop where
  sizable : AllSizable symbol memory.cache
  under : ∀ side, exposure memory symbol side ≤ cap

/-- A step that only fades sagas keeps the cap. -/
theorem Capped.fades {before after : Memory} (capped : Capped symbol cap before)
    (faded : Faded before.cache after.cache) (portfolio : after.portfolio = before.portfolio) :
    Capped symbol cap after where
  sizable := faded.allSizable capped.sizable
  under side := by
    have less := faded.openRemainder_le capped.sizable side
    have held := capped.under side
    unfold exposure at held ⊢
    rw [portfolio]
    linarith

theorem Fades.trans {first second third : Order} (left : Fades first second)
    (right : Fades second third) : Fades first third :=
  ⟨right.symbol.trans left.symbol, right.side.trans left.side, right.quantity.trans left.quantity,
    right.cumQty.trans left.cumQty, right.splitBasis.trans left.splitBasis,
    fun closed => right.closed (left.closed closed)⟩

/-- A saga that fades once more still answers to what it was. -/
theorem Faded.fits {before after : Cache} (faded : Faded before after) {order later : Order}
    (held : after.orders.get order.cloid = some order) (fades : Fades order later)
    (same : later.cloid = order.cloid) :
    later.isTerminal = true ∨
      ∃ earlier, before.orders.get later.cloid = some earlier ∧ Fades earlier later := by
  rcases faded _ order held with closed | ⟨earlier, there, first⟩
  · exact Or.inl (fades.closed closed)
  · exact Or.inr ⟨earlier, same ▸ there, first.trans fades⟩

/-! ## Handlers that only fade sagas -/

/-- Every memory the script installs has faded sagas and the same ledger. -/
def Fading (before : Cache) (portfolio : Portfolio) (effects : List Effect) : Prop :=
  ∀ memory, Effect.memory memory ∈ effects → Faded before memory.cache ∧
    memory.portfolio = portfolio

theorem Fading.append {before : Cache} {portfolio : Portfolio} {first second : List Effect}
    (left : Fading before portfolio first) (right : Fading before portfolio second) :
    Fading before portfolio (first ++ second) := by
  intro memory member
  rcases List.mem_append.mp member with there | there
  · exact left memory there
  · exact right memory there

/-- What a script leaves in memory is what it last installed. -/
theorem play_memory (effects : List Effect) (process : Process) :
    (process.play effects).memory = process.memory ∨
      Effect.memory (process.play effects).memory ∈ effects := by
  induction effects generalizing process with
  | nil => exact Or.inl rfl
  | cons effect rest ih =>
      rcases ih (perform process effect) with same | installed
      · cases effect with
        | memory memory =>
            right
            show Effect.memory ((perform process (.memory memory)).play rest).memory ∈ _
            rw [same]
            exact List.mem_cons_self
        | write _ | announce _ | place _ | cancel _ => exact Or.inl same
      · exact Or.inr (List.mem_cons_of_mem _ installed)

theorem Capped.play {process : Process} (capped : Capped symbol cap process.memory)
    {effects : List Effect}
    (fading : Fading process.memory.cache process.memory.portfolio effects) :
    Capped symbol cap (process.play effects).memory := by
  rcases play_memory effects process with same | installed
  · rw [same]
    exact capped
  · obtain ⟨faded, portfolio⟩ := fading _ installed
    exact capped.fades faded portfolio

/-- One saga made durable as it stands, or as it faded. -/
theorem fading_checkpoint {before : Cache} (memory : Memory) {order : Order} {nowNs : Nanos}
    (faded : Faded before memory.cache)
    (fits : order.isTerminal = true ∨
      ∃ earlier, before.orders.get order.cloid = some earlier ∧ Fades earlier order) :
    Fading before memory.portfolio (checkpoint memory order nowNs) := by
  intro installed member
  simp only [checkpoint, List.mem_cons, reduceCtorEq, Effect.memory.injEq, List.not_mem_nil,
    or_false, false_or] at member
  subst member
  exact ⟨faded.set rfl fits, rfl⟩

/-- A saga advanced in place, then made durable. -/
theorem fading_rewrite {before : Cache} {memory : Memory} {order : Order} {nowNs : Nanos}
    (faded : Faded before memory.cache)
    (fits : order.isTerminal = true ∨
      ∃ earlier, before.orders.get order.cloid = some earlier ∧ Fades earlier order) :
    Fading before memory.portfolio
      (.memory (memory.remember order) :: checkpoint (memory.remember order) order nowNs) := by
  have remembered : Faded before (memory.remember order).cache := faded.set rfl fits
  intro installed member
  rcases List.mem_cons.mp member with same | later
  · cases same
    exact ⟨remembered, rfl⟩
  · exact fading_checkpoint (memory.remember order) remembered fits installed later

theorem fading_silent {before : Cache} {portfolio : Portfolio} {effects : List Effect}
    (silent : ∀ memory, Effect.memory memory ∉ effects) : Fading before portfolio effects :=
  fun memory member => absurd member (silent memory)

/-- Marking several sagas in place. -/
theorem faded_remember {before : Cache} {marked : List Order}
    (fits : ∀ order ∈ marked, order.isTerminal = true ∨
      ∃ earlier, before.orders.get order.cloid = some earlier ∧ Fades earlier order)
    {cache : Cache} (faded : Faded before cache) :
    Faded before (marked.foldl Cache.remember cache) := by
  induction marked generalizing cache with
  | nil => exact faded
  | cons order rest ih =>
      exact ih (fun other member => fits other (List.mem_cons_of_mem _ member))
        (faded.set rfl (fits order List.mem_cons_self))

/-- Making several sagas durable in turn. -/
theorem fading_checkpointEach {before : Cache} {marked : List Order} {nowNs : Nanos}
    (fits : ∀ order ∈ marked, order.isTerminal = true ∨
      ∃ earlier, before.orders.get order.cloid = some earlier ∧ Fades earlier order)
    (memory : Memory) (faded : Faded before memory.cache) :
    Fading before memory.portfolio (checkpointEach memory nowNs marked) := by
  induction marked generalizing memory with
  | nil => exact fading_silent (by simp [checkpointEach])
  | cons order rest ih =>
      have here := fits order List.mem_cons_self
      refine Fading.append (fading_checkpoint memory faded here) ?_
      exact ih (fun other member => fits other (List.mem_cons_of_mem _ member))
        (memory.project order nowNs) (faded.set rfl here)

/-- The operator's marks, over a memory whose sagas have faded so far. -/
theorem operatorMarks_fading {before : Cache} (resting : List Resting) {nowNs : Nanos} :
    ∀ memory : Memory, Faded before memory.cache →
      (∀ c order, memory.cache.orders.get c = some order → order.cloid = c) →
      Fading before memory.portfolio (operatorMarks memory nowNs resting).1 := by
  induction resting with
  | nil => exact fun _ _ _ => fading_silent (by simp [operatorMarks])
  | cons named rest ih =>
      intro memory faded keyed
      cases named with
      | external symbol venueOid => exact ih memory faded keyed
      | ours cloid symbol venueOid =>
          simp only [operatorMarks]
          split
          · exact ih memory faded keyed
          · rename_i order held
            have same := order.markOperatorCancel_sameSaga nowNs
            have here : order.cloid = cloid := keyed _ order held
            have fits := faded.fits (here ▸ held) (.of_sameSaga same) same.cloid
            have remembered : Faded before
                (memory.remember (order.markOperatorCancel nowNs)).cache := faded.set rfl fits
            refine Fading.append (fading_rewrite faded fits) (ih _ (remembered.set rfl fits) ?_)
            exact OrderSync.keyed_set (OrderSync.keyed_set keyed)

section Handlers

variable {process : Process} {nowNs : Nanos}
  (keyed : ∀ c order, process.memory.cache.orders.get c = some order → order.cloid = c)

include keyed

theorem onCancel_fading (signal : CancelSignal) :
    Fading process.memory.cache process.memory.portfolio
      (onCancel deriveCloid process.memory signal nowNs).effects := by
  simp only [onCancel]
  split
  · exact fading_silent (by simp [Script.skip])
  · rename_i order held
    split
    · exact fading_silent (by simp [Script.skip])
    · rename_i marked requested
      have same := Order.requestCancel_sameSaga requested
      have here : order.cloid = deriveCloid signal.targetSignalId := keyed _ order held
      refine Fading.append (fading_rewrite (.refl _) ?_) (fading_silent (by simp))
      exact Or.inr ⟨order, (same.cloid.trans here) ▸ held, .of_sameSaga same⟩

theorem afterSend_fading (cloid : Cloid) :
    Fading process.memory.cache process.memory.portfolio
      (afterSend process.memory cloid nowNs).effects := by
  simp only [afterSend]
  split
  · exact fading_silent (by simp [Script.skip])
  · rename_i order held
    exact fading_checkpoint _ (.refl _) (Or.inr ⟨order, keyed cloid order held ▸ held, .refl order⟩)

theorem onStatus_fading (report : OrderStatusReport) :
    Fading process.memory.cache process.memory.portfolio
      (onStatus process.memory report nowNs).effects := by
  simp only [onStatus]
  split
  · exact fading_silent (by simp [Script.skip])
  · rename_i order held
    split
    · exact fading_silent (by simp [Script.skip])
    · rename_i opened
      split
      · exact fading_silent (by simp [Script.skip])
      · rename_i event mapped
        split
        · exact fading_silent (by simp [Script.fail])
        · exact fading_silent (by simp [Script.skip])
        · rename_i advanced applied
          obtain ⟨_, _, rfl⟩ := Order.apply_eq_some applied
          have cumQty := (statusEvent_eq_some mapped).2.2.2
          have here : order.cloid = report.cloid := keyed _ order held
          have fades : Fades order (order.enter event) :=
            ⟨rfl, rfl, rfl, cumQty, rfl, fun closed => absurd closed opened⟩
          refine Fading.append (fading_rewrite (.refl _) ?_) (fading_silent (by simp))
          exact Or.inr ⟨order, here ▸ held, fades⟩

theorem onCancelAll_fading (signal : CancelAllSignal) :
    Fading process.memory.cache process.memory.portfolio
      (onCancelAll process.memory signal nowNs).effects := by
  simp only [onCancelAll]
  generalize hmarked : ((Cache.openOrders (process.memory.cache.raiseSeq signal.strategyId
    signal.seq) (some signal.strategyId) (some signal.symbol)).filterMap fun order =>
      order.requestCancelAll signal.signalId nowNs) = marked
  have fits : ∀ order ∈ marked, order.isTerminal = true ∨
      ∃ earlier, process.memory.cache.orders.get order.cloid = some earlier ∧
        Fades earlier order := by
    intro order member
    rw [← hmarked] at member
    obtain ⟨cached, listed, requested⟩ := List.mem_filterMap.mp member
    have same := Order.requestCancelAll_sameSaga requested
    have value : cached ∈ process.memory.cache.orders.values := List.mem_of_mem_filter listed
    obtain ⟨c, held⟩ := (Dict.mem_values _ _).mp value
    have here : cached.cloid = c := keyed c cached held
    exact Or.inr ⟨cached, (same.cloid.trans here) ▸ held, .of_sameSaga same⟩
  have raised : Faded process.memory.cache
      (process.memory.cache.raiseSeq signal.strategyId signal.seq) := .refl process.memory.cache
  have marking := faded_remember fits raised
  refine Fading.append (Fading.append (Fading.append ?_ ?_) ?_) ?_
  · intro installed member
    simp only [raiseSeq, List.mem_cons, reduceCtorEq, Effect.memory.injEq, List.not_mem_nil,
      or_false, false_or] at member
    subst member
    exact ⟨raised, rfl⟩
  · intro installed member
    simp only [List.mem_cons, Effect.memory.injEq, List.not_mem_nil, or_false] at member
    subst member
    exact ⟨marking, rfl⟩
  · exact fading_checkpointEach fits ⟨_, process.memory.portfolio⟩ marking
  · split
    · exact fading_silent (by simp)
    · exact fading_silent (by simp)

theorem cancelForOperator_fading (resting : List Resting) :
    Fading process.memory.cache process.memory.portfolio
      (cancelForOperator process.memory resting nowNs).effects :=
  Fading.append (operatorMarks_fading resting _ (.refl _) keyed) (fading_silent (by simp))

end Handlers

/-! ## A placement -/

/-- With the order in it, a side's exposure is the guard's worst case. -/
theorem exposure_of_reading (memory : Memory) (symbol : Symbol) (side : Side)
    (strategyId : StrategyId) (mark : Option MarkTick) (quantity : Decimal) :
    exposure memory symbol side + quantity =
      side.sign * RealGuard.worstCase (preTradeReading memory symbol side strategyId mark) side
        quantity := by
  rw [RealGuard.worstCase, RealGuard.before, reading_openRemainder]
  unfold exposure
  cases side <;> simp only [Side.sign, preTradeReading] <;> ring

/-- **What the guard lets through stays under the cap.** -/
theorem admitted_le {guard moved : RealGuard} {signal : PlaceSignal} {memory : Memory}
    {mark : Option MarkTick} {quantity : Decimal} {price : Option Decimal} {nowNs : Nanos}
    (limit : (guard.limits.symbols signal.symbol).maxPosition = some cap)
    (plain : signal.reduceOnly = false)
    (checked : guard.check signal
      (preTradeReading memory signal.symbol signal.side signal.strategyId mark) nowNs =
        .ok (.approved quantity price, moved)) :
    exposure memory signal.symbol signal.side + quantity ≤ cap := by
  have positive := (RealGuard.check_approved checked).1
  have cap_pos : 0 < cap := by
    apply (guard.limits.symbols signal.symbol).positive
    rw [limit, List.reduceOption_mem_iff]
    simp
  rw [exposure_of_reading memory signal.symbol signal.side signal.strategyId mark]
  rcases RealGuard.check_approved_capped plain limit checked with inside | less
  · have bounds := abs_le.mp inside
    revert bounds
    generalize RealGuard.worstCase _ signal.side quantity = worst
    rintro ⟨short, long⟩
    cases signal.side with
    | buy => simpa [Side.sign] using long
    | sell =>
        simp only [Side.sign, neg_one_mul]
        linarith
  · -- A buy ends higher than it began and a sell lower, so it ends short of zero.
    have between := shrinks_between less
    rw [RealGuard.worstCase] at between ⊢
    generalize RealGuard.before _ _ = start at between ⊢
    revert between
    cases signal.side with
    | buy =>
        simp only [Side.sign, one_mul]
        rintro (⟨_, lower⟩ | ⟨_, short⟩)
        · linarith
        · linarith
    | sell =>
        simp only [Side.sign, neg_one_mul]
        rintro (⟨long, _⟩ | ⟨higher, _⟩)
        · linarith
        · linarith

/-- What a decision to place says of the gates and the guard. -/
theorem placeDecision_approved {gates : Gates} {portfolio : Portfolio} {signal : PlaceSignal}
    {verdict : GuardDecision} {quantity : Decimal} {price : Option Decimal} {basis : Option Basis}
    (decided : placeDecision gates portfolio signal verdict = (.approved quantity price, basis)) :
    verdict = .approved quantity price ∧ gatedDecision gates signal verdict = verdict ∧
      (signal.isFlatten = false → basis = none) := by
  unfold placeDecision at decided
  cases gated : gatedDecision gates signal verdict with
  | denied reason => simp [gated] at decided
  | approved gatedQuantity gatedPrice =>
      simp only [gated] at decided
      have through : gatedDecision gates signal verdict = verdict := by
        unfold gatedDecision at gated ⊢
        split at gated
        · cases gated
        · split at gated
          · cases gated
          · split at gated
            · cases gated
            · rename_i open₁ open₂ open₃
              rw [if_neg open₁, if_neg open₂, if_neg open₃]
      split at decided
      · rename_i flatten
        split at decided
        · cases decided
        · cases decided
          exact ⟨through.symm.trans gated, gated.symm.trans through, fun plain => by rw [plain] at flatten; cases flatten⟩
      · cases decided
        exact ⟨through.symm.trans gated, gated.symm.trans through, fun _ => rfl⟩

theorem reaches_of_gated {gates : Gates} {memory : Memory} {cloid : Cloid} {signal : PlaceSignal}
    {quantity : Decimal} {price : Option Decimal}
    (absent : memory.cache.getOrder cloid = none)
    (through : gatedDecision gates signal (.approved quantity price) = .approved quantity price) :
    reachesGuard gates memory cloid signal = true := by
  unfold gatedDecision at through
  split at through
  · cases through
  · split at through
    · cases through
    · split at through
      · cases through
      · rename_i cleared operators running
        simp only [reachesGuard, absent, Option.isNone_none, Bool.true_and, Bool.and_eq_true,
          Bool.not_eq_true', Bool.and_eq_false_iff, decide_eq_false_iff_not]
        refine ⟨⟨by simpa using cleared, ?_⟩, ?_⟩
        · by_cases mine : signal.strategyId = operator
          · right
            simpa [mine] using operators
          · exact Or.inl mine
        · by_cases exiting : gates.exitRun = true
          · right
            simpa [exiting] using running
          · exact Or.inl (by simpa using exiting)

/-- A saga opened under a new cloid adds its own remainder. -/
theorem openRemainder_open {cache : Cache} (first second : Order) {side : Side}
    (absent : cache.orders.get first.cloid = none) (same : second.cloid = first.cloid) :
    ((cache.orders.set first.cloid first).set second.cloid second).sum (remainder symbol side) =
      openRemainder cache symbol side + remainder symbol side second := by
  rw [Dict.sum_set, Dict.sum_set, absent, same, Dict.get_set_self]
  simp only [Option.elim_none, Option.elim_some, openRemainder]
  ring

theorem remainder_submit {order : Order} {nowNs : Nanos} {side : Side} :
    remainder symbol side (submit order nowNs) =
      if order.symbol = symbol ∧ order.side = side then order.quantity - order.cumQty else 0 := by
  have opens : opensOn symbol (submit order nowNs) = decide (order.symbol = symbol) :=
    Bool.true_and _
  rw [remainder, opens]
  simp only [decide_eq_true_eq]
  rfl

/-- **An order the guard has counted goes out under the cap.** -/
theorem Capped.opens {memory : Memory} {order : Order} {nowNs : Nanos}
    (capped : Capped symbol cap memory)
    (absent : memory.cache.orders.get order.cloid = none) (unfilled : order.cumQty = 0)
    (plain : order.symbol = symbol → order.splitBasis = none ∧ 0 < order.quantity)
    (admitted : order.symbol = symbol → exposure memory symbol order.side + order.quantity ≤ cap) :
    Capped symbol cap ((memory.project order nowNs).remember (submit order nowNs)) where
  sizable := by
    intro c held there
    simp only [Memory.remember, Memory.project, Cache.remember, Cache.project,
      Dict.get_set] at there
    split at there
    · cases there
      intro opened
      have here : order.symbol = symbol := by
        simp only [opensOn, Bool.and_eq_true, decide_eq_true_eq] at opened
        exact opened.2
      refine ⟨(plain here).1, ?_⟩
      show order.cumQty ≤ order.quantity
      rw [unfilled]
      exact (plain here).2.le
    · split at there
      · rename_i other same
        exact absurd same other
      · exact capped.sizable c held there
  under := by
    intro side
    have held := capped.under side
    have added : openRemainder ((memory.project order nowNs).remember (submit order nowNs)).cache
        symbol side = openRemainder memory.cache symbol side +
          if order.symbol = symbol ∧ order.side = side then order.quantity else 0 := by
      refine (openRemainder_open order (submit order nowNs) absent rfl).trans ?_
      rw [remainder_submit, unfilled, sub_zero]
    unfold exposure at held ⊢
    rw [added]
    show side.sign * memory.portfolio.accountNet symbol + _ ≤ cap
    split
    · rename_i mine
      obtain ⟨here, rfl⟩ := mine
      have counted := admitted here
      unfold exposure at counted
      linarith
    · linarith

theorem Capped.onPlace {process : Process} {guard moved : RealGuard} {gates : Gates}
    {signal : PlaceSignal} {verdict : GuardDecision} {mark : Option MarkTick} {nowNs : Nanos}
    (capped : Capped symbol cap process.memory)
    (limit : (guard.limits.symbols symbol).maxPosition = some cap)
    (plain : signal.symbol = symbol → signal.reduceOnly = false)
    (judged : judge guard gates process.memory (deriveCloid signal.signalId) signal mark nowNs =
      .ok (verdict, moved)) :
    Capped symbol cap (process.play (Engine.onPlace deriveCloid gates process.memory signal verdict
      nowNs).effects).memory := by
  simp only [Engine.onPlace]
  split
  · exact capped
  · rename_i absent
    split
    · refine capped.play (Fading.append (fading_checkpoint _ (.refl _) (Or.inl ?_))
        (fading_silent (by simp)))
      rfl
    · rename_i quantity price basis decided
      obtain ⟨rfl, through, unsplit⟩ := placeDecision_approved decided
      rw [judge, if_pos (reaches_of_gated absent through)] at judged
      have installed : ∀ order : Order,
          (process.play (placeOrder process.memory order nowNs).effects).memory =
            (process.memory.project order nowNs).remember (submit order nowNs) := by
        intro order
        simp only [placeOrder]
        split <;> rfl
      rw [installed]
      apply capped.opens
      · exact absent
      · rfl
      · intro here
        refine ⟨unsplit ?_, (RealGuard.check_approved judged).1⟩
        simp [PlaceSignal.isFlatten, plain here]
      · intro here
        have here : signal.symbol = symbol := here
        subst here
        exact admitted_le limit (plain rfl) judged

/-! ## A fill -/

/-- The pieces of a fill are on its order's symbol. -/
theorem piecesOf_symbol {order : Order} {tradeId : String} {quantity price cumQty fee : Decimal}
    {pieces : List Piece}
    (cut : piecesOf config order tradeId quantity price cumQty fee = .ok pieces) :
    ∀ piece ∈ pieces, piece.1.symbol = order.symbol := by
  unfold piecesOf at cut
  split at cut
  · cases cut
    intro piece member
    rw [List.mem_singleton.mp member]
    rfl
  · unfold splitFill at cut
    split at cut
    · cases cut
    · split at cut
      · cases cut
      · cases cut
      · cases cut
        intro piece member
        obtain ⟨entry, _, rfl⟩ := List.mem_map.mp member
        rfl

theorem remainder_elsewhere {order : Order} (elsewhere : order.symbol ≠ symbol) (side : Side) :
    remainder symbol side order = 0 := by
  apply if_neg
  rintro ⟨opens, _⟩
  simp only [opensOn, Bool.and_eq_true, decide_eq_true_eq] at opens
  exact elsewhere opens.2

/-- A fill inside its order's quantity takes its own size off the remainder. -/
theorem remainder_fill {order : Order} {tradeId : String} {quantity price fee : Decimal}
    {tsEvent tsInit : Nanos} {reconciliation : Bool} (opened : order.isTerminal = false)
    (within : order.symbol = symbol → order.cumQty + quantity ≤ order.quantity) (side : Side) :
    remainder symbol side (order.enter (order.fillEvent tradeId quantity price fee tsEvent tsInit
        reconciliation)) =
      remainder symbol side order -
        if order.symbol = symbol ∧ order.side = side then quantity else 0 := by
  by_cases here : order.symbol = symbol
  · by_cases onSide : order.side = side
    · have before : opensOn symbol order = true ∧ order.side = side := by
        simp [opensOn, opened, here, onSide]
      rw [if_pos ⟨here, onSide⟩, remainder, remainder, if_pos before]
      split
      · show order.quantity - (order.cumQty + quantity) = _
        ring
      · -- The order is filled, so the bound on the fill is met exactly.
        rename_i closed
        have filled : order.quantity ≤ order.cumQty + quantity := by
          by_contra part
          apply closed
          have state :=
            order.fillEvent_state tradeId quantity price fee tsEvent tsInit reconciliation
          rw [if_neg part] at state
          refine ⟨?_, onSide⟩
          simp only [opensOn, Order.isTerminal, Order.enter_state, state, Bool.and_eq_true,
            decide_eq_true_eq]
          exact ⟨rfl, here⟩
        linarith [within here]
    · have other : ∀ later : Order, later.side = order.side → remainder symbol side later = 0 :=
        fun later same => if_neg fun both => onSide (same.symm.trans both.2)
      rw [if_neg fun both => onSide both.2, sub_zero, other order rfl]
      exact other _ rfl
  · rw [if_neg fun both => here both.1, sub_zero, remainder_elsewhere here side]
    apply remainder_elsewhere
    exact here

/-- A saga replaced by its successor, remembered and then made durable. -/
theorem openRemainder_replace {memory : Memory} {order next : Order} {nowNs : Nanos}
    (held : memory.cache.orders.get order.cloid = some order) (same : next.cloid = order.cloid)
    (side : Side) :
    openRemainder ((memory.remember next).cache.project next nowNs) symbol side =
      openRemainder memory.cache symbol side - remainder symbol side order +
        remainder symbol side next := by
  simp only [openRemainder, Cache.project, Memory.remember, Cache.remember]
  rw [Dict.sum_set, Dict.sum_set, Dict.get_set_self, same, held]
  simp only [Option.elim_some]
  ring

/-- What one fill of an order does to the net: its own signed quantity, once, or
nothing where its partition has it or it is another symbol's. -/
theorem net_fill {portfolio after : Portfolio} {order : Order} {tradeId : String}
    {quantity price cumQty fee : Decimal} {pieces : List Piece}
    (filed : Filed portfolio.positions)
    (plain : order.symbol = symbol → order.splitBasis = none)
    (cut : piecesOf config order tradeId quantity price cumQty fee = .ok pieces)
    (booked : bookPieces config portfolio pieces = .ok after) :
    after.accountNet symbol = portfolio.accountNet symbol ∨
      (order.symbol = symbol ∧
        after.accountNet symbol = portfolio.accountNet symbol + order.side.sign * quantity) := by
  by_cases here : order.symbol = symbol
  · simp only [piecesOf, plain here] at cut
    cases cut
    have net := bookPieces_net filed (by simp) booked symbol
    rw [net]
    by_cases seen : Seen portfolio (bookableOf order tradeId quantity price fee, order.side)
    · left
      simp [freshOf, seen]
    · right
      refine ⟨here, ?_⟩
      have fresh : freshOf portfolio [(bookableOf order tradeId quantity price fee, order.side)] =
          [(bookableOf order tradeId quantity price fee, order.side)] :=
        List.filter_cons_of_pos (by simpa using seen)
      rw [fresh, List.map_singleton, List.sum_singleton]
      exact congrArg (portfolio.accountNet symbol + ·) (if_pos here)
  · left
    apply bookPieces_net_elsewhere filed _ booked
    intro piece member
    rw [piecesOf_symbol cut piece member]
    exact here

/-- **A fill keeps the cap on both sides**: what leaves its side's remainder
enters the net, and the other side only gains room. -/
theorem Capped.fills {memory : Memory} {after : Portfolio} {order : Order} {tradeId : String}
    {quantity price fee : Decimal} {tsEvent nowNs : Nanos} {reconciliation : Bool}
    (capped : Capped symbol cap memory)
    (held : memory.cache.orders.get order.cloid = some order) (opened : order.isTerminal = false)
    (positive : 0 < quantity)
    (within : order.symbol = symbol → order.cumQty + quantity ≤ order.quantity)
    (moved : after.accountNet symbol = memory.portfolio.accountNet symbol ∨
      (order.symbol = symbol ∧ after.accountNet symbol =
        memory.portfolio.accountNet symbol + order.side.sign * quantity)) :
    Capped symbol cap
      ⟨(memory.remember (order.enter (order.fillEvent tradeId quantity price fee tsEvent nowNs
          reconciliation))).cache.project (order.enter (order.fillEvent tradeId quantity price fee
            tsEvent nowNs reconciliation)) nowNs, after⟩ where
  sizable := by
    intro c later found
    simp only [Cache.project, Memory.remember, Cache.remember, Dict.get_set] at found
    split at found
    · cases found
      intro opens
      have here : order.symbol = symbol := by
        simp only [opensOn, Bool.and_eq_true, decide_eq_true_eq] at opens
        exact opens.2
      have before := capped.sizable _ order held (by simp [opensOn, opened, here])
      exact ⟨before.1, within here⟩
    · exact capped.sizable c later found
  under := by
    intro side
    have before := capped.under side
    unfold exposure at before ⊢
    have replaced : openRemainder ((memory.remember (order.enter (order.fillEvent tradeId quantity
        price fee tsEvent nowNs reconciliation))).cache.project (order.enter (order.fillEvent
          tradeId quantity price fee tsEvent nowNs reconciliation)) nowNs) symbol side =
        openRemainder memory.cache symbol side -
          if order.symbol = symbol ∧ order.side = side then quantity else 0 := by
      refine (openRemainder_replace held ?_ side).trans ?_
      · rfl
      · rw [remainder_fill opened within]
        ring
    rw [replaced]
    show side.sign * after.accountNet symbol + _ ≤ cap
    rcases moved with same | ⟨here, more⟩
    · rw [same]
      split <;> linarith
    · rw [more]
      by_cases onSide : order.side = side
      · subst onSide
        rw [if_pos ⟨here, rfl⟩]
        have once : order.side.sign * (order.side.sign * quantity) = quantity := by
          cases order.side <;> simp [Side.sign]
        linarith [mul_add order.side.sign (memory.portfolio.accountNet symbol)
          (order.side.sign * quantity)]
      · rw [if_neg fun both => onSide both.2]
        have against : side.sign * (order.side.sign * quantity) = -quantity := by
          revert onSide
          cases order.side <;> cases side <;> simp [Side.sign]
        linarith [mul_add side.sign (memory.portfolio.accountNet symbol)
          (order.side.sign * quantity)]

/-- The run's promise about one fill: it does not carry its order past its
quantity. -/
def Within (symbol : Symbol) (cache : Cache) (report : FillReport) : Prop :=
  ∀ order, cache.getOrder report.cloid = some order → order.symbol = symbol →
    EventId.fill order.cloid report.tradeId ∉ order.appliedEventIds →
      order.cumQty + report.quantity ≤ order.quantity

instance (symbol : Symbol) (cache : Cache) (report : FillReport) :
    Decidable (Within symbol cache report) :=
  match held : cache.getOrder report.cloid with
  | none => .isTrue fun order there => by rw [held] at there; cases there
  | some order =>
      decidable_of_iff (order.symbol = symbol →
          EventId.fill order.cloid report.tradeId ∉ order.appliedEventIds →
            order.cumQty + report.quantity ≤ order.quantity)
        ⟨fun bound other there => by rw [held] at there; cases there; exact bound,
          fun within => within order held⟩

theorem Capped.onFill {process : Process} {stale : Cloid → Prop} {report : FillReport}
    {nowNs : Nanos} (synced : process.Synced config stale)
    (capped : Capped symbol cap process.memory)
    (within : Within symbol process.memory.cache report)
    (clean : (Engine.onFill config process.memory process.store report nowNs).fault = none) :
    Capped symbol cap (process.play
      (Engine.onFill config process.memory process.store report nowNs).effects).memory := by
  simp only [Engine.onFill] at clean ⊢
  split
  · exact capped
  · rename_i order there
    simp only [there] at clean
    split
    · exact capped
    · exact capped
    · rename_i advanced event recorded
      simp only [recorded] at clean
      split
      · rename_i faulted
        simp only [faulted] at clean
        cases clean
      · rename_i effects committed
        obtain ⟨positive, ⟨none, _⟩ | ⟨event', rfl, fresh, legal, some⟩⟩ :=
          Order.recordFill_cases recorded
        · cases none
        · cases some
          have keyed : order.cloid = report.cloid := synced.orders.cacheKeyed _ order there
          have held : process.memory.cache.orders.get order.cloid = .some order := by
            rw [keyed]
            exact there
          have opened : order.isTerminal = false := by
            by_contra closed
            have terminal : order.state.isTerminal = true := by
              simpa [Order.isTerminal] using closed
            rw [OrderState.legalTransition_of_isTerminal terminal] at legal
            cases legal
          simp only [checkpointFill] at committed
          split at committed
          · cases committed
          · split at committed
            · cases committed
            · rename_i pieces cut
              obtain ⟨folded, changes, applied, rfl⟩ := commitFolds_cases committed
              have booked : bookPieces config process.memory.portfolio pieces =
                  .ok (changes.foldl Portfolio.project folded) := by
                have same : process.memory.portfolio.applyFills config pieces =
                    .ok (folded, changes) := applied
                rw [bookPieces, same]
              rw [play_fill]
              apply capped.fills held opened positive fun here => within order there here fresh
              have unsplit : order.symbol = symbol → order.splitBasis = .none := by
                intro here
                have opens : opensOn symbol order = true := by simp [opensOn, opened, here]
                exact (capped.sizable _ order there opens).1
              exact net_fill synced.ledger.filed unsplit cut booked

/-! ## Every run -/

/-- What the cap is about: placements on the symbol are plain, and a fill never
carries its order past its quantity. -/
def PlainOn (symbol : Symbol) (state : Guarded) : GuardedLabel → Prop
  | .place _ signal _ _ => signal.symbol = symbol → signal.reduceOnly = false
  | .report (.fill report) _ => Within symbol state.life.process.memory.cache report
  | .report _ _ | .cancel .. | .cancelAll .. | .operatorCancel .. | .sent _ => True

instance (symbol : Symbol) (state : Guarded) :
    (label : GuardedLabel) → Decidable (PlainOn symbol state label)
  | .place _ signal _ _ =>
      inferInstanceAs (Decidable (signal.symbol = symbol → signal.reduceOnly = false))
  | .report (.fill report) _ =>
      inferInstanceAs (Decidable (Within symbol state.life.process.memory.cache report))
  | .report (.status _) _ | .report (.refused ..) _ | .cancel .. | .cancelAll ..
  | .operatorCancel .. | .sent _ => .isTrue trivial

/-- The guard caps the symbol, and the life is inside the cap. -/
structure Guards (config : Config) (symbol : Symbol) (cap : Decimal) (state : Guarded) : Prop where
  steady : Steady config state.life
  limit : (state.guard.limits.symbols symbol).maxPosition = some cap
  capped : Capped symbol cap state.life.process.memory

theorem handle_played {life next : Life} {input : Input} {nowNs : Nanos}
    (stepped : (engine deriveCloid config).step life (.handle input nowNs) = some next) :
    (scriptOf deriveCloid config life.process nowNs input).fault = none ∧
      next.process = life.process.play (scriptOf deriveCloid config life.process nowNs
        input).effects := by
  simp only [engine] at stepped
  split at stepped
  · rename_i enabled
    cases stepped
    exact ⟨enabled.2, rfl⟩
  · cases stepped

theorem judge_keeps {guard moved : RealGuard} {gates : Gates} {memory : Memory} {cloid : Cloid}
    {signal : PlaceSignal} {mark : Option MarkTick} {nowNs : Nanos} {verdict : GuardDecision}
    (judged : judge guard gates memory cloid signal mark nowNs = .ok (verdict, moved)) :
    moved.limits = guard.limits := by
  unfold judge at judged
  split at judged
  · obtain ⟨_, rfl⟩ := RealGuard.check_keeps judged
    rfl
  · cases judged
    rfl

/-- A handled input that only fades sagas. -/
theorem Guards.handled {state : Guarded} {next : Life} {input : Input} {nowNs : Nanos}
    (guards : Guards config symbol cap state)
    (stepped : (engine deriveCloid config).step state.life (.handle input nowNs) = some next)
    (fading : Fading state.life.process.memory.cache state.life.process.memory.portfolio
      (scriptOf deriveCloid config state.life.process nowNs input).effects) :
    Guards config symbol cap { state with life := next } := by
  refine ⟨step_steady guards.steady stepped, guards.limit, ?_⟩
  show Capped symbol cap next.process.memory
  rw [(handle_played stepped).2]
  exact guards.capped.play fading

/-- **Every step keeps both sides inside the cap.** -/
theorem step_guards {state next : Guarded} {label : GuardedLabel}
    (guards : Guards config symbol cap state) (plain : PlainOn symbol state label)
    (stepped : (guarded deriveCloid config).step state label = some next) :
    Guards config symbol cap next := by
  have keyed := guards.steady.synced.orders.cacheKeyed
  cases label with
  | place gates signal mark nowNs =>
      simp only [guarded] at stepped
      split at stepped
      · cases stepped
      · rename_i verdict moved judged
        obtain ⟨life, handled, rfl⟩ := Option.map_eq_some_iff.mp stepped
        refine ⟨step_steady guards.steady handled, ?_, ?_⟩
        · show (moved.limits.symbols symbol).maxPosition = some cap
          rw [judge_keeps judged]
          exact guards.limit
        · show Capped symbol cap life.process.memory
          rw [(handle_played handled).2]
          exact guards.capped.onPlace guards.limit plain judged
  | cancel signal nowNs =>
      simp only [guarded, Option.map_eq_some_iff] at stepped
      obtain ⟨life, handled, rfl⟩ := stepped
      exact guards.handled handled (onCancel_fading keyed signal)
  | cancelAll signal nowNs =>
      simp only [guarded, Option.map_eq_some_iff] at stepped
      obtain ⟨life, handled, rfl⟩ := stepped
      exact guards.handled handled (onCancelAll_fading keyed signal)
  | operatorCancel resting nowNs =>
      simp only [guarded, Option.map_eq_some_iff] at stepped
      obtain ⟨life, handled, rfl⟩ := stepped
      exact guards.handled handled (cancelForOperator_fading keyed resting)
  | report report nowNs =>
      simp only [guarded, Option.map_eq_some_iff] at stepped
      obtain ⟨life, handled, rfl⟩ := stepped
      cases report with
      | status report => exact guards.handled handled (onStatus_fading keyed report)
      | refused cloid symbol =>
          exact guards.handled handled (fading_silent fun _ member => by cases member)
      | fill report =>
          refine ⟨step_steady guards.steady handled, guards.limit, ?_⟩
          obtain ⟨clean, played⟩ := handle_played handled
          show Capped symbol cap life.process.memory
          rw [played]
          exact guards.capped.onFill guards.steady.synced plain clean
  | sent nowNs =>
      simp only [guarded, Option.map_eq_some_iff] at stepped
      obtain ⟨life, sent, rfl⟩ := stepped
      refine ⟨step_steady guards.steady sent, guards.limit, ?_⟩
      simp only [engine] at sent
      split at sent
      · cases sent
      · rename_i cloid waiting
        cases sent
        exact guards.capped.play (afterSend_fading keyed cloid)

namespace Sample

/-- Ten either way, on lots of a hundredth. -/
def tenCap : RealGuard where
  specs _ := some { szDecimals := 2, maxDecimals := 4, minNotional := 1 }
  limits := { symbols := fun _ => { maxPosition := some 10 } }

def sell : PlaceSignal := { buy with seq := 2, side := .sell, quantity := 14 }

/-- A buy of ten filled by four, then a sell that carries the four to ten short. -/
def cappedLabels : List GuardedLabel :=
  [.place {} buy none 1, .sent 2, .report (.status live) 3, .report (.fill fourFilled) 4,
    .place {} sell none 5, .sent 6,
    .report (.fill { fourFilled with cloid := "0x02", quantity := 14 }) 7]

end Sample

end Tickwright.Engine
