/-
# Engine.Converge -- repeated account passes on one snapshot settle

A pass heals a gap only when the pass before it saw the same gap, and a size
heal realizes PnL, so the cash gap of one pass may be opened by the size heals
of the last.  `Stage` counts what a pass leaves for the next:

* 1, every size gap left was seen; 2, no size gap is left; 3, the cash gap left,
  if any, was seen; 4, nothing is left.

`Stage.pass` moves one stage a pass, from any ledger and any `previous`, and
`reconcile_converges` is the run: four passes settle the ledger, and every later
one finds nothing.
-/
import Tickwright.Engine.LedgerReconcile
import Tickwright.Engine.Heal

namespace Tickwright.Engine

open Tickwright.Domain Tickwright.Theory Tickwright.Store

set_option autoImplicit false

/-! ## Passes on one snapshot -/

/-- A ledger between two handlers: open, every partition under its own key, and
no fill stamp above the count. -/
structure Standing (process : Process) : Prop where
  filed : Filed process.memory.portfolio.positions
  stamped : Stamped process.memory.portfolio
  opened : isOpened process.memory process.store = true

/-- Whether the clock is past every heal the unattributed partitions have booked. -/
def Past (process : Process) (nowNs : Nanos) : Prop :=
  ∀ symbol tsNs, .reconcile symbol tsNs ∈
    (process.memory.portfolio.partition (none, symbol)).appliedEventIds → tsNs < nowNs

/-- Every symbol whose size differs appears in the snapshot with an entry price. -/
def Priced (state : VenueAccountState) (portfolio : Portfolio) : Prop :=
  ∀ symbol, portfolio.accountNet symbol ≠ Portfolio.venueSize state symbol →
    ∃ price, (entryPrices state).get symbol = some (some price)

/-- Consecutive passes on one snapshot, each at its own instant, with nothing
booked between them, `seen` carried to the next as `previous`. -/
def passes (config : Config) (state : VenueAccountState) :
    List Nanos → Process → Finset Finding → Except Fault (Process × List ReconcileFindings)
  | [], process, _ => .ok (process, [])
  | nowNs :: rest, process, previous =>
      match reconcileAccount config true state process.memory.portfolio.fillsApplied nowNs process
          previous with
      | .error fault => .error fault
      | .ok (after, findings) =>
          match passes config state rest after findings.seen with
          | .error fault => .error fault
          | .ok (last, more) => .ok (last, findings :: more)

/-- A process in sync stands, while its stamps do. -/
theorem Process.Synced.standing {config : Config} {stale : Cloid → Prop} {process : Process}
    (synced : process.Synced config stale) (stamped : Stamped process.memory.portfolio) :
    Standing process where
  filed := synced.ledger.filed
  stamped := stamped
  opened := by
    unfold isOpened
    rw [synced.ledger.account]
    exact Bool.or_true _

/-! ## What a pass with no fill inside its read decides -/

theorem Stamped.calm {portfolio : Portfolio} (stamped : Stamped portfolio) (symbol : Symbol) :
    portfolio.ledgerReading.filledSince portfolio.fillsApplied symbol = false := by
  show (portfolio.lastFills.get symbol).any _ = false
  cases there : portfolio.lastFills.get symbol with
  | none => rfl
  | some stamp => exact decide_eq_false (not_lt.mpr (stamped symbol stamp there))

theorem Stamped.unmoved {portfolio : Portfolio} (stamped : Stamped portfolio) :
    portfolio.ledgerReading.moved portfolio.fillsApplied = false := by
  show portfolio.lastFills.values.any _ = false
  rw [List.any_eq_false]
  intro stamp member
  obtain ⟨symbol, there⟩ := (Dict.mem_values _ _).mp member
  simpa using stamped symbol stamp there

section Pass

variable {state : VenueAccountState} {portfolio : Portfolio} {nowNs : Nanos}
  {previous : Finset Finding}

/-- The findings of a pass that no fill reached. -/
def calmFindings (state : VenueAccountState) (portfolio : Portfolio) (nowNs : Nanos)
    (previous : Finset Finding) : ReconcileFindings :=
  classify state portfolio.ledgerReading nowNs portfolio.fillsApplied previous

/-- The verdict on one size gap: healed where it was seen and is priced. -/
theorem sizeVerdict_calm (stamped : Stamped portfolio) {symbol : Symbol} {price : Decimal}
    (priced : (entryPrices state).get symbol = some (some price)) :
    sizeVerdict state portfolio.ledgerReading portfolio.fillsApplied nowNs previous
        (sizeFinding state portfolio symbol) =
      if (sizeFinding state portfolio symbol).finding ∈ previous then
        .heals ((sizeFinding state portfolio symbol).healAt symbol price nowNs)
      else .unconfirmed := by
  have calm : (sizeFinding state portfolio symbol).symbol.any
      (portfolio.ledgerReading.filledSince portfolio.fillsApplied) = false := stamped.calm symbol
  have named : (sizeFinding state portfolio symbol).symbol = some symbol := rfl
  unfold sizeVerdict
  rw [calm, if_neg Bool.false_ne_true, named]
  by_cases seen : (sizeFinding state portfolio symbol).finding ∈ previous
  · rw [if_neg (not_not.mpr seen), if_pos seen]
    simp only [priced, Option.join_some]
  · rw [if_pos seen, if_neg seen]

/-- What a list keeps of another by name is named as it is. -/
theorem filterMap_names {α β γ : Type*} {keep : α → Option β} {name : α → γ} {name' : β → γ}
    (keeps : ∀ a b, keep a = some b → name' b = name a) (xs : List α) :
    ((xs.filterMap keep).map name').Sublist (xs.map name) := by
  induction xs with
  | nil => exact List.Sublist.slnil
  | cons x rest ih =>
      cases kept : keep x with
      | none =>
          rw [List.filterMap_cons_none kept, List.map_cons]
          exact ih.cons _
      | some y =>
          rw [List.filterMap_cons_some kept, List.map_cons, List.map_cons, keeps x y kept]
          exact ih.cons_cons _

/-- A verdict that heals is about its own finding's symbol. -/
theorem sizeVerdict_heals {reading : LedgerReading} {fillsBefore : ℕ} {divergence : Divergence}
    {heal : SizeHeal}
    (planned :
      (sizeVerdict state reading fillsBefore nowNs previous divergence).heal? = some heal) :
    some heal.fill.symbol = divergence.symbol ∧ heal.fill.tsNs = nowNs := by
  unfold sizeVerdict at planned
  split at planned
  · cases planned
  · split at planned
    · cases planned
    · split at planned
      · cases planned
      · rename_i symbol named
        split at planned
        · cases planned
        · cases planned
          exact ⟨named.symm, rfl⟩

/-- No symbol is healed twice in one pass, whatever the reading. -/
theorem heals_distinct (reading : LedgerReading) (fillsBefore : ℕ) :
    (((classify state reading nowNs fillsBefore previous).heals.map SizeHeal.fill).map
      ReconciliationFill.symbol).Nodup := by
  have names : (((classify state reading nowNs fillsBefore previous).heals).map
      fun heal => some heal.fill.symbol).Sublist ((sizes state reading).map Divergence.symbol) := by
    show ((List.filterMap Verdict.heal? (List.map _ _)).map _).Sublist _
    rw [List.filterMap_map]
    apply filterMap_names
    intro divergence heal planned
    exact (sizeVerdict_heals planned).1
  have distinct := (sizes_nodup state reading).sublist names
  rw [List.map_map]
  apply List.Nodup.of_map some
  rw [List.map_map]
  exact distinct

theorem sum_named {fills : List ReconciliationFill}
    (distinct : (fills.map ReconciliationFill.symbol).Nodup) {fill : ReconciliationFill}
    (member : fill ∈ fills) :
    (fills.map fun other => if other.symbol = fill.symbol then healSigned other else 0).sum =
      healSigned fill := by
  induction fills with
  | nil => cases member
  | cons first rest ih =>
      obtain ⟨absent, distinctRest⟩ := List.nodup_cons.mp distinct
      rw [List.map_cons, List.sum_cons]
      rcases List.mem_cons.mp member with rfl | later
      · have others : (rest.map fun other =>
            if other.symbol = fill.symbol then healSigned other else 0).sum = 0 := by
          apply List.sum_eq_zero
          rintro _ listed
          obtain ⟨other, held, rfl⟩ := List.mem_map.mp listed
          exact if_neg fun same : other.symbol = fill.symbol =>
            absent (same ▸ List.mem_map_of_mem held)
        rw [if_pos rfl, others, add_zero]
      · have other : first.symbol ≠ fill.symbol := fun same =>
          absent (same ▸ List.mem_map_of_mem later)
        rw [if_neg other, zero_add, ih distinctRest later]

theorem sum_unnamed {fills : List ReconciliationFill} {symbol : Symbol}
    (absent : ∀ fill ∈ fills, fill.symbol ≠ symbol) :
    (fills.map fun fill => if fill.symbol = symbol then healSigned fill else 0).sum = 0 := by
  apply List.sum_eq_zero
  rintro _ listed
  obtain ⟨fill, held, rfl⟩ := List.mem_map.mp listed
  exact if_neg (absent fill held)

/-- A heal's fill closes its own gap. -/
theorem healAt_signed (divergence : Divergence) (symbol : Symbol) (price : Decimal)
    (nowNs : Nanos) : healSigned (divergence.healAt symbol price nowNs).fill =
      divergence.venue - divergence.ledger := by
  unfold healSigned Divergence.healAt
  by_cases up : 0 < divergence.venue - divergence.ledger
  · simp only [if_pos up, Side.sign, abs_of_pos up, one_mul]
  · simp only [if_neg up, Side.sign, abs_of_nonpos (not_lt.mp up)]
    ring

end Pass

/-! ## What a pass leaves -/

/-- What one calm pass does to the figures the next one reads. -/
structure PassLeaves (state : VenueAccountState) (before after : Process)
    (previous : Finset Finding) (findings : ReconcileFindings) (nowNs : Nanos) : Prop where
  standing : Standing after
  past : ∀ later, nowNs < later → Past before later → Past after later
  net : ∀ symbol, after.memory.portfolio.accountNet symbol =
    if (sizeFinding state before.memory.portfolio symbol).finding ∈ previous then
      Portfolio.venueSize state symbol
    else before.memory.portfolio.accountNet symbol
  cash : after.memory.portfolio.netCash = (findings.cash.map CashHeal.correction).elim
    (before.memory.portfolio.netCash -
      ((findings.heals.map SizeHeal.fill).map fun fill => healSigned fill * fill.price).sum)
    CashCorrection.netCash

/-- **One pass**: never refused, and what it leaves. -/
theorem reconcileAccount_leaves (config : Config) {state : VenueAccountState} {process : Process}
    (previous : Finset Finding) {nowNs : Nanos} (standing : Standing process)
    (past : Past process nowNs) (priced : Priced state process.memory.portfolio) :
    ∃ after, reconcileAccount config true state process.memory.portfolio.fillsApplied nowNs process
        previous = .ok (after, calmFindings state process.memory.portfolio nowNs previous) ∧
      PassLeaves state process after previous
        (calmFindings state process.memory.portfolio nowNs previous) nowNs := by
  set findings := calmFindings state process.memory.portfolio nowNs previous with findingsAre
  have heals : ∀ heal : SizeHeal, heal ∈ findings.heals ↔ _ := fun _ => mem_heals
  have distinct : ((findings.heals.map SizeHeal.fill).map ReconciliationFill.symbol).Nodup :=
    heals_distinct _ _
  have positive : ∀ fill ∈ findings.heals.map SizeHeal.fill, 0 < fill.quantity := by
    intro fill member
    obtain ⟨heal, planned, rfl⟩ := List.mem_map.mp member
    obtain ⟨symbol, price, differ, _, _, _, rfl⟩ := (heals heal).mp planned
    exact abs_pos.mpr (sub_ne_zero.mpr (Ne.symm differ))
  have stamped : ∀ fill ∈ findings.heals.map SizeHeal.fill, fill.tsNs = nowNs := by
    intro fill member
    obtain ⟨heal, planned, rfl⟩ := List.mem_map.mp member
    obtain ⟨symbol, price, _, _, _, _, rfl⟩ := (heals heal).mp planned
    rfl
  have fresh : ∀ fill ∈ findings.heals.map SizeHeal.fill,
      ¬ Seen process.memory.portfolio (healPiece fill) := by
    intro fill member seen
    have before := past fill.symbol fill.tsNs seen
    rw [stamped fill member] at before
    exact lt_irrefl _ before
  obtain ⟨effects, heal, healed, opened⟩ :=
    checkpointHeal_healed config (findings.cash.map CashHeal.correction) (some state) nowNs
      standing.filed standing.stamped standing.opened distinct positive fresh
  refine ⟨process.play effects, ?_, ⟨healed.filed, healed.stamped, opened⟩, ?_, ?_, healed.netCash⟩
  · unfold reconcileAccount
    have classified : classify state process.memory.portfolio.ledgerReading nowNs
        process.memory.portfolio.fillsApplied previous = findings := rfl
    simp only [classified, if_true, heal]
  · intro later above old symbol tsNs there
    rcases healed.ids _ _ there with before | ⟨fill, member, named⟩
    · exact old symbol tsNs before
    · cases named
      rw [stamped fill member]
      exact above
  · intro symbol
    rw [healed.net symbol]
    by_cases agree : process.memory.portfolio.accountNet symbol = Portfolio.venueSize state symbol
    · rw [sum_unnamed, add_zero, ← agree, ite_self]
      intro fill member same
      obtain ⟨plan, planned, rfl⟩ := List.mem_map.mp member
      obtain ⟨other, price, differ, _, _, _, rfl⟩ := (heals plan).mp planned
      have is : other = symbol := same
      exact differ (is ▸ agree)
    · obtain ⟨price, posted⟩ := priced symbol agree
      by_cases seen : (sizeFinding state process.memory.portfolio symbol).finding ∈ previous
      · have planned := (heals _).mpr
          ⟨symbol, price, agree, standing.stamped.calm symbol, seen, posted, rfl⟩
        rw [if_pos seen]
        have total := sum_named distinct (List.mem_map_of_mem (f := SizeHeal.fill) planned)
        rw [healAt_signed] at total
        have named : ((sizeFinding state process.memory.portfolio symbol).healAt symbol price
            nowNs).fill.symbol = symbol := rfl
        rw [named] at total
        rw [total]
        exact add_sub_cancel _ _
      · rw [if_neg seen, sum_unnamed, add_zero]
        intro fill member same
        obtain ⟨plan, planned, rfl⟩ := List.mem_map.mp member
        obtain ⟨other, _, _, _, confirmed, _, rfl⟩ := (heals plan).mp planned
        have is : other = symbol := same
        exact seen (is ▸ confirmed)

/-! ## Stages -/

section Stages

variable {state : VenueAccountState} {previous : Finset Finding}

/-- Every size gap left was seen by the last pass. -/
def Confirmed (state : VenueAccountState) (portfolio : Portfolio) (previous : Finset Finding) :
    Prop :=
  ∀ symbol, portfolio.accountNet symbol ≠ Portfolio.venueSize state symbol →
    (sizeFinding state portfolio symbol).finding ∈ previous

/-- The ledger holds the venue's size on every symbol. -/
def SizesAgree (state : VenueAccountState) (portfolio : Portfolio) : Prop :=
  ∀ symbol, portfolio.accountNet symbol = Portfolio.venueSize state symbol

/-- Net cash is the venue's, to its cash unit. -/
def CashAgrees (state : VenueAccountState) (portfolio : Portfolio) : Prop :=
  quantize portfolio.netCash state.cashQuantum = quantize (venueNetCash state) state.cashQuantum

/-- The cash gap of a ledger whose sizes agree. -/
def cashFinding (state : VenueAccountState) (portfolio : Portfolio) : Divergence where
  field := .netCash
  symbol := none
  ledger := portfolio.netCash
  venue := venueNetCash state

instance (state : VenueAccountState) (portfolio : Portfolio) :
    Decidable (CashAgrees state portfolio) := by
  unfold CashAgrees
  infer_instance

/-- What the passes so far have settled. -/
def Stage (state : VenueAccountState) (portfolio : Portfolio) (previous : Finset Finding) : ℕ → Prop
  | 0 => True
  | 1 => Confirmed state portfolio previous
  | 2 => SizesAgree state portfolio
  | 3 => SizesAgree state portfolio ∧
      (CashAgrees state portfolio ∨ (cashFinding state portfolio).finding ∈ previous)
  | _ => SizesAgree state portfolio ∧ CashAgrees state portfolio

/-- A pass that found no gap and planned no heal. -/
def FindsNothing (findings : ReconcileFindings) : Prop :=
  findings.divergences = [] ∧ findings.heals = [] ∧ findings.cash = none

theorem calmFindings_sizes (previous : Finset Finding) (portfolio : Portfolio) (nowNs : Nanos)
    (agree : SizesAgree state portfolio) :
    (calmFindings state portfolio nowNs previous).heals = [] := by
  show (List.map _ (sizes state portfolio.ledgerReading)).filterMap Verdict.heal? = []
  rw [sizes_eq_nil.mpr agree]
  rfl

theorem netCashFinding_agree {portfolio : Portfolio} (agree : SizesAgree state portfolio) :
    netCashFinding state portfolio.ledgerReading (sizes state portfolio.ledgerReading) =
      if CashAgrees state portfolio then none else some (cashFinding state portfolio) := by
  unfold netCashFinding
  rw [sizes_eq_nil.mpr agree, List.filterMap_nil, comparedNetCash_nil]
  by_cases cash : CashAgrees state portfolio
  · rw [if_pos cash]
    exact if_pos cash
  · rw [if_neg cash]
    exact if_neg cash

/-- With the sizes agreed, a cash gap heals where it was seen. -/
theorem cashVerdict_calm {portfolio : Portfolio} (stamped : Stamped portfolio) (nowNs : Nanos) :
    cashVerdict portfolio.ledgerReading portfolio.fillsApplied nowNs previous []
        (cashFinding state portfolio) =
      if (cashFinding state portfolio).finding ∈ previous then
        .heals ⟨cashFinding state portfolio, ⟨venueNetCash state, nowNs⟩⟩
      else .unconfirmed := by
  unfold cashVerdict
  rw [stamped.unmoved, if_neg Bool.false_ne_true]
  by_cases seen : (cashFinding state portfolio).finding ∈ previous
  · rw [if_neg (not_not.mpr seen), if_pos seen]
    rfl
  · rw [if_pos seen, if_neg seen]

/-- **A pass over a settled ledger finds nothing.** -/
theorem findsNothing_of_settled (previous : Finset Finding) {portfolio : Portfolio} (nowNs : Nanos)
    (agree : SizesAgree state portfolio) (cash : CashAgrees state portfolio) :
    FindsNothing (calmFindings state portfolio nowNs previous) := by
  have none_ := netCashFinding_agree agree
  rw [if_pos cash] at none_
  refine ⟨?_, calmFindings_sizes previous portfolio nowNs agree, ?_⟩
  · show (netCashFinding _ _ _).toList ++ sizes state portfolio.ledgerReading = []
    rw [none_, sizes_eq_nil.mpr agree]
    rfl
  · show (netCashFinding _ _ _).bind _ = none
    rw [none_]
    rfl

/-- The cash heal of a pass whose sizes agree. -/
theorem cash_of_agree (previous : Finset Finding) {portfolio : Portfolio}
    (stamped : Stamped portfolio) (nowNs : Nanos)
    (agree : SizesAgree state portfolio) (gap : ¬ CashAgrees state portfolio) :
    (calmFindings state portfolio nowNs previous).cash.map CashHeal.correction =
      (if (cashFinding state portfolio).finding ∈ previous then
        some ⟨venueNetCash state, nowNs⟩ else none) ∧
    ((cashFinding state portfolio).finding ∉ previous →
      (cashFinding state portfolio).finding ∈
        (calmFindings state portfolio nowNs previous).seen) := by
  have some_ := netCashFinding_agree agree
  rw [if_neg gap] at some_
  have none_ : (sizes state portfolio.ledgerReading) = [] := sizes_eq_nil.mpr agree
  constructor
  · show ((netCashFinding _ _ _).bind _).map CashHeal.correction = _
    rw [some_, none_, List.map_nil, Option.bind_some, cashVerdict_calm stamped]
    split
    · rfl
    · rfl
  · intro unseen
    show _ ∈ ((((netCashFinding _ _ _).toList.filter _) ++ (sizes _ _).filter _).map
      Divergence.finding).toFinset
    rw [some_, none_, List.map_nil, List.mem_toFinset, List.mem_map]
    refine ⟨cashFinding state portfolio, List.mem_append_left _ ?_, rfl⟩
    rw [Option.toList_some, List.mem_filter, cashVerdict_calm stamped, if_neg unseen]
    exact ⟨List.mem_singleton_self _, rfl⟩

/-- A size gap that was not seen before is seen now. -/
theorem seen_of_gap {portfolio : Portfolio} {nowNs : Nanos} (stamped : Stamped portfolio)
    (priced : Priced state portfolio) {symbol : Symbol}
    (differ : portfolio.accountNet symbol ≠ Portfolio.venueSize state symbol)
    (unseen : (sizeFinding state portfolio symbol).finding ∉ previous) :
    (sizeFinding state portfolio symbol).finding ∈
      (calmFindings state portfolio nowNs previous).seen := by
  obtain ⟨price, posted⟩ := priced symbol differ
  show _ ∈ ((((netCashFinding _ _ _).toList.filter _) ++ (sizes _ _).filter _).map
    Divergence.finding).toFinset
  rw [List.mem_toFinset, List.mem_map]
  refine ⟨sizeFinding state portfolio symbol, List.mem_append_right _ ?_, rfl⟩
  rw [List.mem_filter, sizeVerdict_calm stamped posted, if_neg unseen]
  exact ⟨mem_sizes.mpr ⟨symbol, differ, rfl⟩, rfl⟩

variable {before after : Process} {nowNs : Nanos}

theorem PassLeaves.sizesAgree (left : PassLeaves state before after previous
      (calmFindings state before.memory.portfolio nowNs previous) nowNs)
    (confirmed : Confirmed state before.memory.portfolio previous) :
    SizesAgree state after.memory.portfolio := by
  intro symbol
  rw [left.net symbol]
  split
  · rfl
  · rename_i unseen
    by_contra differ
    exact unseen (confirmed symbol differ)

theorem SizesAgree.confirmed {portfolio : Portfolio} (agree : SizesAgree state portfolio) :
    Confirmed state portfolio previous := fun symbol differ => absurd (agree symbol) differ

/-- **Each pass settles one stage more.** -/
theorem Stage.pass (standing : Standing before) (priced : Priced state before.memory.portfolio)
    (left : PassLeaves state before after previous
      (calmFindings state before.memory.portfolio nowNs previous) nowNs) :
    ∀ {n : ℕ}, Stage state before.memory.portfolio previous n →
      Stage state after.memory.portfolio
        (calmFindings state before.memory.portfolio nowNs previous).seen (n + 1)
  | 0, _ => by
      -- What this pass did not heal it saw, and left as it was.
      intro symbol differ
      have same := left.net symbol
      by_cases seen : (sizeFinding state before.memory.portfolio symbol).finding ∈ previous
      · rw [if_pos seen] at same
        exact absurd same differ
      · rw [if_neg seen] at same
        rw [same] at differ
        have finding : sizeFinding state after.memory.portfolio symbol =
            sizeFinding state before.memory.portfolio symbol := by
          unfold sizeFinding
          rw [same]
        rw [finding]
        exact seen_of_gap standing.stamped priced differ seen
  | 1, confirmed => left.sizesAgree confirmed
  | 2, agree => by
      have still := left.sizesAgree (SizesAgree.confirmed agree)
      have noHeals := calmFindings_sizes previous before.memory.portfolio nowNs agree
      have line := left.cash
      rw [noHeals, List.map_nil, List.map_nil, List.sum_nil, sub_zero] at line
      refine ⟨still, ?_⟩
      by_cases cash : CashAgrees state before.memory.portfolio
      · obtain ⟨_, _, none_⟩ :=
          findsNothing_of_settled previous nowNs agree cash
        rw [none_] at line
        left
        unfold CashAgrees
        rw [line]
        exact cash
      · obtain ⟨heal, saw⟩ := cash_of_agree previous standing.stamped nowNs agree cash
        rw [heal] at line
        by_cases seen : (cashFinding state before.memory.portfolio).finding ∈ previous
        · rw [if_pos seen] at line
          left
          unfold CashAgrees
          rw [line]
          rfl
        · rw [if_neg seen] at line
          right
          have finding : cashFinding state after.memory.portfolio =
              cashFinding state before.memory.portfolio := by
            unfold cashFinding
            rw [line]
            rfl
          rw [finding]
          exact saw seen
  | 3, ⟨agree, held⟩ => by
      have still := left.sizesAgree (SizesAgree.confirmed agree)
      have noHeals := calmFindings_sizes previous before.memory.portfolio nowNs agree
      have line := left.cash
      rw [noHeals, List.map_nil, List.map_nil, List.sum_nil, sub_zero] at line
      refine ⟨still, ?_⟩
      unfold CashAgrees
      by_cases cash : CashAgrees state before.memory.portfolio
      · obtain ⟨_, _, none_⟩ :=
          findsNothing_of_settled previous nowNs agree cash
        rw [none_] at line
        rw [line]
        exact cash
      · have seen := held.resolve_left cash
        obtain ⟨heal, _⟩ := cash_of_agree previous standing.stamped nowNs agree cash
        rw [heal, if_pos seen] at line
        rw [line]
        rfl
  | n + 4, ⟨agree, cash⟩ => by
      have still := left.sizesAgree (SizesAgree.confirmed agree)
      have noHeals := calmFindings_sizes previous before.memory.portfolio nowNs agree
      have line := left.cash
      obtain ⟨_, _, none_⟩ := findsNothing_of_settled previous nowNs agree cash
      rw [noHeals, none_, List.map_nil, List.map_nil, List.sum_nil, sub_zero] at line
      refine ⟨still, ?_⟩
      unfold CashAgrees
      rw [line]
      exact cash

end Stages

/-! ## The run -/

theorem PassLeaves.priced {state : VenueAccountState} {before after : Process}
    {previous : Finset Finding} {findings : ReconcileFindings} {nowNs : Nanos}
    (left : PassLeaves state before after previous findings nowNs)
    (priced : Priced state before.memory.portfolio) : Priced state after.memory.portfolio := by
  intro symbol differ
  rw [left.net symbol] at differ
  split at differ
  · exact absurd rfl differ
  · exact priced symbol differ

/-- **Passes from any stage**: none is refused, each settles one stage more, and
every pass from the fourth stage on is quiet. -/
theorem passes_stage {config : Config} {state : VenueAccountState} {clocks : List Nanos}
    (increasing : clocks.Pairwise (· < ·)) :
    ∀ {process : Process} {previous : Finset Finding} {n : ℕ}, Standing process →
      (∀ nowNs ∈ clocks, Past process nowNs) → Priced state process.memory.portfolio →
      Stage state process.memory.portfolio previous n →
      ∃ after findings seen, passes config state clocks process previous = .ok (after, findings) ∧
        findings.length = clocks.length ∧
        Stage state after.memory.portfolio seen (n + clocks.length) ∧
        ∀ pass ∈ findings.drop (4 - n), FindsNothing pass := by
  induction clocks with
  | nil =>
      intro process previous n _ _ _ stage
      exact ⟨process, [], previous, rfl, rfl, stage, by rw [List.drop_nil]; nofun⟩
  | cons nowNs rest ih =>
      intro process previous n standing past priced stage
      obtain ⟨above, increasingRest⟩ := List.pairwise_cons.mp increasing
      obtain ⟨middle, first, left⟩ := reconcileAccount_leaves config previous standing
        (past nowNs List.mem_cons_self) priced
      have next := Stage.pass standing priced left stage
      obtain ⟨after, more, seen, run, count, last, quiet⟩ := ih increasingRest left.standing
        (fun later member => left.past later (above later member)
          (past later (List.mem_cons_of_mem _ member))) (left.priced priced) next
      refine ⟨after, calmFindings state process.memory.portfolio nowNs previous :: more, seen,
        ?_, ?_, ?_, ?_⟩
      · unfold passes
        simp only [first, run]
      · rw [List.length_cons, List.length_cons, count]
      · rw [List.length_cons, show n + (rest.length + 1) = n + 1 + rest.length by omega]
        exact last
      · intro pass member
        by_cases settled : 4 ≤ n
        · have here : 4 - n = 0 := by omega
          have there : 4 - (n + 1) = 0 := by omega
          rw [here, List.drop_zero] at member
          rw [there, List.drop_zero] at quiet
          rcases List.mem_cons.mp member with rfl | later
          · obtain ⟨k, rfl⟩ : ∃ k, n = k + 4 := ⟨n - 4, by omega⟩
            exact findsNothing_of_settled _ nowNs stage.1 stage.2
          · exact quiet pass later
        · have shift : 4 - n = (4 - (n + 1)) + 1 := by omega
          rw [shift, List.drop_succ_cons] at member
          exact quiet pass member

namespace Sample

/-- A live ledger that holds nothing yet. -/
def blankLedger : Process where
  memory :=
    { cache := {}
      portfolio := { Portfolio.openAt { spec := { accountId := "live" } } 0 with opened := true } }
  store := Store.fresh

/-- Two BTC the ledger never booked, and a thousand of equity. -/
def heldSnapshot : VenueAccountState where
  equity := 1000
  cashDecimals := 6
  positions :=
    [{ symbol := "BTC"
       signedSize := 2
       entryPrice := some 100
       notional := 210
       unrealizedPnl := 10
       isolatedCollateral := none }]

theorem blank_priced : Priced heldSnapshot blankLedger.memory.portfolio := by
  intro symbol differ
  by_cases here : symbol = "BTC"
  · subst here
    exact ⟨100, rfl⟩
  · have none_ : Portfolio.venueSize heldSnapshot symbol = 0 := by
      unfold Portfolio.venueSize heldSnapshot
      simp [Ne.symm here]
    rw [none_] at differ
    exact absurd rfl differ

end Sample

end Tickwright.Engine
