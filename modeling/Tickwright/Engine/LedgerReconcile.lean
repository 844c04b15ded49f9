/-
# Engine.LedgerReconcile -- the ledger against the venue's own account truth

One pass of the account cadence compares one `LedgerReading` with one venue
snapshot, decides which gaps to heal, and makes the plan durable.  Tier 1 is
embedded here, the two figures a pass may write: the account-net size of each
symbol (`sizes`) and net cash (`netCashFinding`).  The Tier-2 figures are alerts
and move nothing.

* a finding heals only if the last pass saw the same gap on the same figure
  (`previous`) and no fill touched it while the venue read was in flight;
* the cash heal waits for every size heal of its pass, because the cash line it
  writes carries the cost basis those fills leave;
* `seen` is what the next pass may confirm: neither healed nor deferred for a fill.
-/
import Tickwright.Engine.Checkpoint
import Tickwright.Engine.InSync
import Tickwright.Engine.Batch

namespace Tickwright.Engine

open Tickwright.Domain Tickwright.Theory Tickwright.Store

set_option autoImplicit false

/-! ## The ledger's side of a pass -/

/-- One symbol's Tier-1 figures, summed over every partition. -/
structure SymbolValuation where
  net : Decimal
  costBasis : Decimal
deriving DecidableEq

/-- The ledger's whole side of one pass, folded once. -/
structure LedgerReading where
  cash : Decimal
  rows : Dict Symbol SymbolValuation
  lastFills : Dict Symbol ℕ

namespace LedgerReading

/-- The account-net size of each symbol. -/
def net (reading : LedgerReading) : Dict Symbol Decimal := reading.rows.map SymbolValuation.net

/-- Whether a fill touched the symbol after the ledger's count stood at
`fillsBefore`. -/
def filledSince (reading : LedgerReading) (fillsBefore : ℕ) (symbol : Symbol) : Bool :=
  (reading.lastFills.get symbol).any fun stamp => decide (fillsBefore < stamp)

/-- Whether any symbol took a fill after the count. -/
def moved (reading : LedgerReading) (fillsBefore : ℕ) : Bool :=
  reading.lastFills.values.any fun stamp => decide (fillsBefore < stamp)

end LedgerReading

namespace Portfolio

/-- What the open size of one symbol cost, over every partition. -/
def accountCostBasis (portfolio : Portfolio) (symbol : Symbol) : Decimal :=
  ((portfolio.across symbol).map Position.costBasis).sum

/-- One row a symbol held. -/
def valuation (portfolio : Portfolio) (symbol : Symbol) : SymbolValuation where
  net := portfolio.accountNet symbol
  costBasis := portfolio.accountCostBasis symbol

/-- `ledger_reading`. -/
def ledgerReading (portfolio : Portfolio) : LedgerReading where
  cash := portfolio.account.cash
  rows := Dict.empty.setAll (portfolio.positions.values.map fun position =>
    (position.symbol, portfolio.valuation position.symbol))
  lastFills := portfolio.lastFills

end Portfolio

/-! ## Findings -/

/-- The two figures a pass may heal. -/
inductive DivergenceField
  | netCash
  | signedSize
deriving DecidableEq

/-- One Tier-1 figure the ledger and the venue disagree on.  The account grain
carries no symbol. -/
structure Divergence where
  field : DivergenceField
  symbol : Option Symbol
  ledger : Decimal
  venue : Decimal
deriving DecidableEq

/-- A finding's identity across passes: its field, its symbol and its gap. -/
abbrev Finding := DivergenceField × Option Symbol × Decimal

/-- `_finding`. -/
def Divergence.finding (divergence : Divergence) : Finding :=
  (divergence.field, divergence.symbol, divergence.venue - divergence.ledger)

/-- The symbols two net folds disagree on, each with both sizes; an absent side
reads flat. -/
def netDiff (left right : Dict Symbol Decimal) : List (Symbol × Decimal × Decimal) :=
  (((left.keys ++ right.keys).dedup.insertionSort (· ≤ ·)).map fun symbol =>
    (symbol, (left.get symbol).getD 0, (right.get symbol).getD 0)).filter
      fun row => decide (row.2.1 ≠ row.2.2)

/-- The venue's size of each symbol in the snapshot. -/
def venueSizes (state : VenueAccountState) : Dict Symbol Decimal :=
  Dict.empty.setAll (state.positions.map fun position => (position.symbol, position.signedSize))

/-- The venue's cost basis of each symbol in the snapshot. -/
def venueBases (state : VenueAccountState) : Dict Symbol Decimal :=
  Dict.empty.setAll (state.positions.map fun position => (position.symbol, position.costBasis))

/-- The entry price the venue posts for each symbol in the snapshot. -/
def entryPrices (state : VenueAccountState) : Dict Symbol (Option Decimal) :=
  Dict.empty.setAll (state.positions.map fun position => (position.symbol, position.entryPrice))

/-- `_sizes`: the account-net size per symbol against the venue's. -/
def sizes (state : VenueAccountState) (reading : LedgerReading) : List Divergence :=
  (netDiff reading.net (venueSizes state)).map fun row =>
    { field := .signedSize, symbol := some row.1, ledger := row.2.1, venue := row.2.2 }

/-- The ledger's net cash as a pass compares it: a symbol with a size finding
takes the venue's cost basis on both sides. -/
def comparedNetCash (state : VenueAccountState) (reading : LedgerReading)
    (diverged : List Symbol) : Decimal :=
  reading.cash -
    (reading.rows.entries.map fun row =>
      if row.1 ∈ diverged then ((venueBases state).get row.1).getD 0 else row.2.costBasis).sum -
    ((diverged.filter fun symbol => decide (symbol ∉ reading.rows.keys)).map fun symbol =>
      ((venueBases state).get symbol).getD 0).sum

/-- `_net_cash`: the ledger's net cash against the venue's, to the venue's unit. -/
def netCashFinding (state : VenueAccountState) (reading : LedgerReading)
    (sizeFindings : List Divergence) : Option Divergence :=
  let ledger := comparedNetCash state reading (sizeFindings.filterMap Divergence.symbol)
  let venue := venueNetCash state
  if quantize ledger state.cashQuantum = quantize venue state.cashQuantum then none
  else some { field := .netCash, symbol := none, ledger := ledger, venue := venue }

/-! ## The heal plan -/

/-- A size finding and the fill built to close it. -/
structure SizeHeal where
  divergence : Divergence
  fill : ReconciliationFill
deriving DecidableEq

/-- The cash finding and the correction built to close it. -/
structure CashHeal where
  divergence : Divergence
  correction : CashCorrection
deriving DecidableEq

/-- What a pass decides of one finding. -/
inductive Verdict (α : Type)
  /-- A fill inside the read held it back. -/
  | deferred
  /-- A cash finding waits for a size finding that waits for its confirmation. -/
  | waiting
  /-- The last pass did not see this gap. -/
  | unconfirmed
  /-- The venue posts no entry price, for it or for a size it waits on. -/
  | unpriced
  | heals (heal : α)
deriving DecidableEq

namespace Verdict

variable {α : Type}

/-- The heal it plans, if it plans one. -/
def heal? : Verdict α → Option α
  | heals heal => some heal
  | _ => none

/-- Whether the next pass may not count the finding as seen. -/
def forgets : Verdict α → Bool
  | deferred | heals _ => true
  | waiting | unconfirmed | unpriced => false

def isDeferred : Verdict α → Bool
  | deferred | waiting => true
  | _ => false

def isUnconfirmed : Verdict α → Bool
  | unconfirmed => true
  | _ => false

def isUnpriced : Verdict α → Bool
  | unpriced => true
  | _ => false

end Verdict

/-- The fill that moves the ledger to the snapshot. -/
def Divergence.healAt (divergence : Divergence) (symbol : Symbol) (price : Decimal)
    (nowNs : Nanos) : SizeHeal where
  divergence := divergence
  fill :=
    { symbol := symbol
      side := if 0 < divergence.venue - divergence.ledger then .buy else .sell
      quantity := |divergence.venue - divergence.ledger|
      price := price
      tsNs := nowNs }

/-- The verdict on one size finding. -/
def sizeVerdict (state : VenueAccountState) (reading : LedgerReading) (fillsBefore : ℕ)
    (nowNs : Nanos) (previous : Finset Finding) (divergence : Divergence) : Verdict SizeHeal :=
  if divergence.symbol.any (reading.filledSince fillsBefore) then .deferred
  else if divergence.finding ∉ previous then .unconfirmed
  else
    match divergence.symbol with
    | none => .unpriced
    | some symbol =>
        match ((entryPrices state).get symbol).join with
        | none => .unpriced
        | some price => .heals (divergence.healAt symbol price nowNs)

/-- The verdict on the cash finding, beside the verdicts on the sizes. -/
def cashVerdict (reading : LedgerReading) (fillsBefore : ℕ) (nowNs : Nanos)
    (previous : Finset Finding) (sizeVerdicts : List (Verdict SizeHeal))
    (divergence : Divergence) : Verdict CashHeal :=
  if reading.moved fillsBefore then .deferred
  else if divergence.finding ∉ previous then .unconfirmed
  else if (sizeVerdicts.filterMap Verdict.heal?).length < sizeVerdicts.length then
    if .unpriced ∈ sizeVerdicts then .unpriced else .waiting
  else
    .heals
      { divergence := divergence
        correction := { netCash := divergence.venue, tsNs := nowNs } }

/-- What one pass found at Tier 1, and which findings heal.  The counts say why
the others do not. -/
structure ReconcileFindings where
  divergences : List Divergence
  heals : List SizeHeal
  cash : Option CashHeal
  deferred : ℕ
  unconfirmed : ℕ
  unpriced : ℕ
  seen : Finset Finding

/-- `ReconcileFindings.classify`, its Tier-1 half. -/
def classify (state : VenueAccountState) (reading : LedgerReading) (nowNs : Nanos)
    (fillsBefore : ℕ) (previous : Finset Finding) : ReconcileFindings :=
  let sizeFindings := sizes state reading
  let cashFindings := netCashFinding state reading sizeFindings
  let verdict := sizeVerdict state reading fillsBefore nowNs previous
  let verdicts := sizeFindings.map verdict
  let cash := cashVerdict reading fillsBefore nowNs previous verdicts
  let cashVerdicts := cashFindings.toList.map cash
  { divergences := cashFindings.toList ++ sizeFindings
    heals := verdicts.filterMap Verdict.heal?
    cash := cashFindings.bind fun divergence => (cash divergence).heal?
    deferred := verdicts.countP Verdict.isDeferred + cashVerdicts.countP Verdict.isDeferred
    unconfirmed :=
      verdicts.countP Verdict.isUnconfirmed + cashVerdicts.countP Verdict.isUnconfirmed
    unpriced := verdicts.countP Verdict.isUnpriced + cashVerdicts.countP Verdict.isUnpriced
    seen :=
      (((cashFindings.toList.filter fun divergence => !(cash divergence).forgets) ++
        sizeFindings.filter fun divergence => !(verdict divergence).forgets).map
          Divergence.finding).toFinset }

/-- `reconcile_account` from its venue read on: classify, gate the cash heal on
the account mode, and make the plan durable. -/
def reconcileAccount (config : Config) (modeVerified : Bool) (state : VenueAccountState)
    (fillsBefore : ℕ) (nowNs : Nanos) (process : Process) (previous : Finset Finding) :
    Except Fault (Process × ReconcileFindings) :=
  let findings := classify state process.memory.portfolio.ledgerReading nowNs fillsBefore previous
  let cash := if modeVerified then findings.cash.map CashHeal.correction else none
  match checkpointHeal config process.memory process.store (findings.heals.map SizeHeal.fill) cash
      (some state) nowNs with
  | .error fault => .error fault
  | .ok effects => .ok (process.play effects, findings)

/-! ## What a reading holds -/

section Reading

variable {portfolio : Portfolio} {state : VenueAccountState}

theorem accountNet_of_absent {symbol : Symbol}
    (absent : symbol ∉ portfolio.positions.values.map Position.symbol) :
    portfolio.accountNet symbol = 0 := by
  unfold Portfolio.accountNet
  have none_ :
      (portfolio.positions.values.filter fun position => position.symbol = symbol) = [] := by
    rw [List.filter_eq_nil_iff]
    intro position member same
    exact absent (of_decide_eq_true same ▸ List.mem_map_of_mem member)
  rw [none_]
  rfl

/-- **A reading has one row for each symbol filed, and it is that symbol's own.** -/
theorem ledgerReading_row (portfolio : Portfolio) (symbol : Symbol) :
    portfolio.ledgerReading.rows.get symbol =
      if symbol ∈ portfolio.positions.values.map Position.symbol then
        some (portfolio.valuation symbol)
      else none := by
  have keys : (portfolio.positions.values.map fun position =>
      (position.symbol, portfolio.valuation position.symbol)).map Prod.fst =
      portfolio.positions.values.map Position.symbol := by
    rw [List.map_map]
    rfl
  show (Dict.empty.setAll _).get symbol = _
  by_cases there : symbol ∈ portfolio.positions.values.map Position.symbol
  · rw [if_pos there]
    have held : ∀ symbols : List Symbol, symbol ∈ symbols → ∀ d : Dict Symbol SymbolValuation,
        (d.setAll (symbols.map fun s => (s, portfolio.valuation s))).get symbol =
          some (portfolio.valuation symbol) := by
      intro symbols member
      induction symbols with
      | nil => cases member
      | cons first rest ih =>
          intro d
          rw [List.map_cons, Dict.setAll_cons]
          by_cases later : symbol ∈ rest
          · exact ih later _
          · have here : symbol = first := (List.mem_cons.mp member).resolve_right later
            subst here
            apply Dict.get_setAll_const
            · intro pair listed same
              obtain ⟨s, _, rfl⟩ := List.mem_map.mp listed
              exact congrArg portfolio.valuation same
            · exact Dict.get_set_self _ _ _
    have mapped := held _ there Dict.empty
    rw [List.map_map] at mapped
    exact mapped
  · rw [if_neg there, Dict.get_setAll_of_not_mem (by rw [keys]; exact there)]
    rfl

theorem ledgerReading_net (portfolio : Portfolio) (symbol : Symbol) :
    (portfolio.ledgerReading.net.get symbol).getD 0 = portfolio.accountNet symbol := by
  unfold LedgerReading.net
  rw [Dict.get_map, ledgerReading_row]
  by_cases there : symbol ∈ portfolio.positions.values.map Position.symbol
  · rw [if_pos there]
    rfl
  · rw [if_neg there, accountNet_of_absent there]
    rfl

/-- The last position a snapshot names for a symbol is the one its dict keeps. -/
theorem venueSizes_get (state : VenueAccountState) (symbol : Symbol) :
    ((venueSizes state).get symbol).getD 0 = Portfolio.venueSize state symbol := by
  unfold venueSizes Portfolio.venueSize
  congr 1
  induction state.positions using List.reverseRecOn with
  | nil => rfl
  | append_singleton first position ih =>
      rw [List.map_append, Dict.setAll_append, List.reverse_append, List.map_singleton,
        Dict.setAll_cons, Dict.setAll_nil, Dict.get_set]
      by_cases here : position.symbol = symbol
      · simp [here]
      · simp only [if_neg here, ih]
        simp [here]

theorem mem_netDiff {left right : Dict Symbol Decimal} {row : Symbol × Decimal × Decimal} :
    row ∈ netDiff left right ↔ row.2.1 = (left.get row.1).getD 0 ∧
      row.2.2 = (right.get row.1).getD 0 ∧ row.2.1 ≠ row.2.2 := by
  unfold netDiff
  rw [List.mem_filter, List.mem_map, decide_eq_true_iff]
  constructor
  · rintro ⟨⟨symbol, _, rfl⟩, differ⟩
    exact ⟨rfl, rfl, differ⟩
  · obtain ⟨symbol, ours, theirs⟩ := row
    rintro ⟨held, seen, differ⟩
    dsimp only at held seen differ
    refine ⟨⟨symbol, ?_, by rw [held, seen]⟩, differ⟩
    rw [List.mem_insertionSort, List.mem_dedup, List.mem_append]
    by_contra absent
    rw [not_or] at absent
    apply differ
    rw [held, seen, (left.get_eq_none symbol).mpr absent.1, (right.get_eq_none symbol).mpr absent.2]

theorem netDiff_nodup (left right : Dict Symbol Decimal) :
    ((netDiff left right).map Prod.fst).Nodup := by
  unfold netDiff
  refine List.Nodup.sublist (List.Sublist.map _ List.filter_sublist) ?_
  rw [List.map_map]
  show (List.map id _).Nodup
  rw [List.map_id, (List.perm_insertionSort _ _).nodup_iff]
  exact List.nodup_dedup _

/-- The size finding of a symbol. -/
def sizeFinding (state : VenueAccountState) (portfolio : Portfolio) (symbol : Symbol) :
    Divergence where
  field := .signedSize
  symbol := some symbol
  ledger := portfolio.accountNet symbol
  venue := Portfolio.venueSize state symbol

/-- **The size findings are exactly the symbols the two sides disagree on.** -/
theorem mem_sizes {divergence : Divergence} :
    divergence ∈ sizes state portfolio.ledgerReading ↔
      ∃ symbol, portfolio.accountNet symbol ≠ Portfolio.venueSize state symbol ∧
        divergence = sizeFinding state portfolio symbol := by
  unfold sizes
  rw [List.mem_map]
  constructor
  · rintro ⟨⟨symbol, ours, theirs⟩, member, rfl⟩
    obtain ⟨held, seen, differ⟩ := mem_netDiff.mp member
    dsimp only at held seen differ
    rw [ledgerReading_net] at held
    rw [venueSizes_get] at seen
    subst held seen
    exact ⟨symbol, differ, rfl⟩
  · rintro ⟨symbol, differ, rfl⟩
    refine ⟨(symbol, portfolio.accountNet symbol, Portfolio.venueSize state symbol), ?_, rfl⟩
    rw [mem_netDiff]
    exact ⟨(ledgerReading_net portfolio symbol).symm, (venueSizes_get state symbol).symm, differ⟩

theorem sizes_nodup (state : VenueAccountState) (reading : LedgerReading) :
    ((sizes state reading).map Divergence.symbol).Nodup := by
  unfold sizes
  rw [List.map_map]
  have named : (netDiff reading.net (venueSizes state)).map
      (Divergence.symbol ∘ fun row => ⟨.signedSize, some row.1, row.2.1, row.2.2⟩) =
      ((netDiff reading.net (venueSizes state)).map Prod.fst).map some := by
    rw [List.map_map]
    rfl
  rw [named]
  exact (netDiff_nodup _ _).map (Option.some_injective _)

theorem sizes_eq_nil :
    sizes state portfolio.ledgerReading = [] ↔
      ∀ symbol, portfolio.accountNet symbol = Portfolio.venueSize state symbol := by
  rw [List.eq_nil_iff_forall_not_mem]
  constructor
  · intro none_ symbol
    by_contra differ
    exact none_ _ (mem_sizes.mpr ⟨symbol, differ, rfl⟩)
  · intro agree divergence member
    obtain ⟨symbol, differ, _⟩ := mem_sizes.mp member
    exact differ (agree symbol)

/-- **What a pass heals**: exactly the priced size gaps the last pass saw and no
fill touched inside the read. -/
theorem mem_heals {nowNs : Nanos} {fillsBefore : ℕ} {previous : Finset Finding} {heal : SizeHeal} :
    heal ∈ (classify state portfolio.ledgerReading nowNs fillsBefore previous).heals ↔
      ∃ symbol price, portfolio.accountNet symbol ≠ Portfolio.venueSize state symbol ∧
        portfolio.ledgerReading.filledSince fillsBefore symbol = false ∧
        (sizeFinding state portfolio symbol).finding ∈ previous ∧
        (entryPrices state).get symbol = some (some price) ∧
        heal = (sizeFinding state portfolio symbol).healAt symbol price nowNs := by
  show heal ∈ (List.map _ _).filterMap Verdict.heal? ↔ _
  rw [List.filterMap_map, List.mem_filterMap]
  constructor
  · rintro ⟨divergence, member, planned⟩
    obtain ⟨symbol, differ, rfl⟩ := mem_sizes.mp member
    have named : (sizeFinding state portfolio symbol).symbol = some symbol := rfl
    simp only [Function.comp_apply, sizeVerdict, named, Option.any_some] at planned
    split at planned
    · cases planned
    · rename_i calm
      split at planned
      · cases planned
      · rename_i seen
        split at planned
        · cases planned
        · rename_i price posted
          refine ⟨symbol, price, differ, by simpa using calm, not_not.mp seen, ?_,
            (Option.some.inj planned).symm⟩
          rw [Option.join_eq_some_iff] at posted
          exact posted
  · rintro ⟨symbol, price, differ, calm, seen, posted, rfl⟩
    refine ⟨sizeFinding state portfolio symbol, mem_sizes.mpr ⟨symbol, differ, rfl⟩, ?_⟩
    have named : (sizeFinding state portfolio symbol).symbol = some symbol := rfl
    simp only [Function.comp_apply, sizeVerdict, named, Option.any_some, calm, posted,
      Option.join_some, seen, not_true_eq_false, Bool.false_eq_true, if_false]
    rfl

/-- **With no size finding a pass compares the ledger's own net cash.** -/
theorem comparedNetCash_nil (portfolio : Portfolio) :
    comparedNetCash state portfolio.ledgerReading [] = portfolio.netCash := by
  unfold comparedNetCash Portfolio.netCash
  rw [List.filter_nil, List.map_nil, List.sum_nil, sub_zero]
  congr 1
  have keyed : (portfolio.ledgerReading.rows.entries.map fun row =>
      if row.1 ∈ ([] : List Symbol) then ((venueBases state).get row.1).getD 0
      else row.2.costBasis) = portfolio.ledgerReading.rows.keys.map portfolio.accountCostBasis := by
    unfold Dict.keys
    rw [List.map_map]
    apply List.map_congr_left
    rintro ⟨symbol, row⟩ member
    have read := (Dict.get_eq_some _ _ _).mpr member
    rw [ledgerReading_row] at read
    split at read
    · cases read
      exact if_neg List.not_mem_nil
    · cases read
  rw [keyed]
  unfold Portfolio.accountCostBasis Portfolio.across Dict.sum
  apply Dict.sum_by_key Position.costBasis portfolio.ledgerReading.rows.keys_nodup
  intro position member
  rw [Dict.mem_keys]
  refine ⟨portfolio.valuation position.symbol, ?_⟩
  rw [ledgerReading_row, if_pos (List.mem_map_of_mem member)]

end Reading

end Tickwright.Engine
