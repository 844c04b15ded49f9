/-
# Domain.Valuation -- what the book is worth at the marks

Every figure here is recomputed on read and none is stored.  `accountValuation` folds
the book once into one row a symbol, at the account-net grain the venue holds its
position at; `accountView` sums those rows, and `positionView` reads one of them.  A
term that lacks its mark, its rate or its bucket is unknown, and makes unknown what is
added up from it.

The liquidation price is solved from the mark, though it is a level and no reading:

* replacing a symbol's mark moves the backing by the net size and the maintenance by the
  rate on its magnitude, isolated and cross alike (`Book.backs_remark`);
* so at the price itself the backing is the maintenance, at the grain of the mode, and
  the price is the same whatever mark it is solved from (`liquidation_price_exact`).
-/
import Tickwright.Domain.Position
import Tickwright.Domain.Instrument
import Tickwright.Theory.Gather
import Mathlib.Tactic.FieldSimp
import Mathlib.Tactic.LinearCombination

namespace Tickwright.Domain

open Theory

set_option autoImplicit false

/-- The resolved map of margin modes and leverages. -/
structure LeverageBook where
  entries : Dict Symbol LeverageSpec := Dict.empty

def LeverageBook.forSymbol (book : LeverageBook) (symbol : Symbol) : LeverageSpec :=
  (book.entries.get symbol).getD {}

/-- One symbol's account-grain figures, valued in one read. -/
structure SymbolValuation where
  symbol : Symbol
  net : Decimal
  costBasis : Decimal
  unrealizedPnl : Option Decimal
  notional : Option Decimal
  isolatedCollateral : Option Decimal
  marginUsed : Option Decimal
  maintenanceMargin : Option Decimal
  leverage : ℤ
  marginMode : MarginMode

/-- The account-wide pool's snapshot. -/
structure AccountView where
  cash : Decimal
  equity : Option Decimal
  totalMarginUsed : Option Decimal
  totalMaintenanceMargin : Option Decimal
  freeMargin : Option Decimal
  effectiveLeverage : Option Decimal

/-- One partition's snapshot, both tiers in one read. -/
structure PositionView where
  symbol : Symbol
  size : Decimal
  entryPrice : Decimal
  realizedPnl : Decimal
  fees : Decimal
  funding : Decimal
  unrealizedPnl : Option Decimal
  notional : Option Decimal
  leverage : ℤ
  marginMode : MarginMode
  marginUsed : Option Decimal
  maintenanceMargin : Option Decimal
  liquidationPrice : Option Decimal
  effectiveLeverage : Option Decimal
  markTs : Option Nanos

/-- Where a liquidation price comes from: our formula, or the venue's own field, which
may hold none. -/
inductive LiquidationSource
  | computed
  | reported (price : Option Decimal)

def LiquidationSource.resolve (computed : Option Decimal) : LiquidationSource → Option Decimal
  | .computed => computed
  | .reported price => price

/-! ## One symbol's figures -/

/-- `Position.unrealized_pnl`. -/
def Position.unrealizedPnl (position : Position) (mark : Decimal) : Decimal :=
  position.signedSize * (mark - position.entryPrice)

/-- The same, unknown where it needs a mark and there is none. -/
def unrealizedPnl (position : Position) (mark : Option Decimal) : Option Decimal :=
  if position.isFlat then some 0 else mark.map position.unrealizedPnl

/-- The symbol's exposure at position grain. -/
def notionalOf (accountNet : Decimal) (mark : Option Decimal) : Option Decimal :=
  if accountNet = 0 then some 0 else mark.map fun mark => |accountNet| * mark

def maintenanceMargin (notional : Option Decimal) (spec : Option InstrumentSpec) :
    Option Decimal :=
  if notional = some 0 then some 0
  else notional.bind fun notional => spec.map fun spec => notional * spec.marginMaint

/-- What stands behind the position: its own bucket marked to market, or the pool. -/
def backingCollateral (mode : MarginMode)
    (isolatedCollateral accountUnrealizedPnl accountEquity : Option Decimal) : Option Decimal :=
  match mode with
  | .isolated => total isolatedCollateral accountUnrealizedPnl
  | .cross => accountEquity

/-- The maintenance owed on the pool the backing is drawn from. -/
def liquidationMaintenance (mode : MarginMode)
    (maintenanceMargin accountMaintenanceMargin : Option Decimal) : Option Decimal :=
  match mode with
  | .isolated => maintenanceMargin
  | .cross => accountMaintenanceMargin

/-- `mark - side * margin_available / size / (1 - l * side)`, where it is positive. -/
def liquidationPrice (accountNet : Decimal) (mark backing maintenance : Option Decimal)
    (spec : Option InstrumentSpec) : Option Decimal :=
  if accountNet = 0 then none
  else
    match mark, backing, maintenance, spec with
    | some mark, some backing, some maintenance, some spec =>
        let side : Decimal := if 0 < accountNet then 1 else -1
        let marginAvailable := backing - maintenance
        let price := mark - side * marginAvailable / |accountNet| / (1 - spec.marginMaint * side)
        if 0 < price then some price else none
    | _, _, _, _ => none

/-- Notional over the backing, where that is positive. -/
def effectiveLeverage (notional backing : Option Decimal) : Option Decimal :=
  match notional, backing with
  | some notional, some backing => if backing ≤ 0 then none else some (notional / backing)
  | _, _ => none

def marginUsed (notional : Option Decimal) (leverage : LeverageSpec) (backing : Option Decimal) :
    Option Decimal :=
  match leverage.mode with
  | .isolated => backing
  | .cross => notional.map fun notional => notional / leverage.leverage

/-! ## The book, folded once -/

/-- The account-net size of each symbol. -/
def accountNetSize (positions : List Position) : Dict Symbol Decimal :=
  Dict.gather Position.symbol 0 (fun net position => net + position.signedSize) positions

/-- The account-net uPnL of each symbol. -/
def upnlBySymbol (positions : List Position) (marks : Dict Symbol Decimal) :
    Dict Symbol (Option Decimal) :=
  Dict.gather Position.symbol (some 0) (fun running position =>
    total running (unrealizedPnl position (marks.get position.symbol))) positions

def bucketBySymbol (positions : List Position) : Dict Symbol (Option Decimal) :=
  Dict.gather Position.symbol (some 0) (fun running position =>
    total running position.isolatedCollateral) positions

def costBasisBySymbol (positions : List Position) : Dict Symbol Decimal :=
  Dict.gather Position.symbol 0 (fun running position => running + position.costBasis) positions

section Rows

variable (positions : List Position) (marks : Dict Symbol Decimal) (leverage : LeverageBook)
  (specs : Dict Symbol InstrumentSpec)

/-- The row of one symbol, off the accumulated terms. -/
def rowOf (symbol : Symbol) (size : Decimal) : SymbolValuation :=
  let symbolLeverage := leverage.forSymbol symbol
  let notional := notionalOf size (marks.get symbol)
  let bucket := ((bucketBySymbol positions).get symbol).getD (some 0)
  let upnl := ((upnlBySymbol positions marks).get symbol).getD (some 0)
  { symbol := symbol
    net := size
    costBasis := ((costBasisBySymbol positions).get symbol).getD 0
    unrealizedPnl := upnl
    notional := notional
    isolatedCollateral := bucket
    marginUsed := marginUsed notional symbolLeverage
      (backingCollateral symbolLeverage.mode bucket upnl none)
    maintenanceMargin := maintenanceMargin notional (specs.get symbol)
    leverage := symbolLeverage.leverage
    marginMode := symbolLeverage.mode }

/-- Every symbol's account-grain row. -/
def accountValuation : Dict Symbol SymbolValuation :=
  (accountNetSize positions).mapKeyed (rowOf positions marks leverage specs)

end Rows

/-- The account-wide pool: sums over the rows. -/
def accountView (account : Account) (rows : Dict Symbol SymbolValuation) : AccountView :=
  let equity := total (some account.cash) (summed (rows.values.map SymbolValuation.unrealizedPnl))
  let totalNotional := summed (rows.values.map SymbolValuation.notional)
  let totalMarginUsed := summed (rows.values.map SymbolValuation.marginUsed)
  { cash := account.cash
    equity := equity
    totalMarginUsed := totalMarginUsed
    totalMaintenanceMargin := summed (rows.values.map SymbolValuation.maintenanceMargin)
    freeMargin := total equity (totalMarginUsed.map Neg.neg)
    effectiveLeverage := effectiveLeverage totalNotional equity }

/-- One partition's view, its symbol's row beside it. -/
def positionView (position : Position) (row : SymbolValuation)
    (accountEquity accountMaintenanceMargin mark : Option Decimal) (markTs : Option Nanos)
    (spec : Option InstrumentSpec) (liquidation : LiquidationSource) :
    Except InvariantViolation PositionView :=
  if row.symbol ≠ position.symbol then
    .error (.rowOfAnother row.symbol position.owner position.symbol)
  else
    let backing := backingCollateral row.marginMode row.isolatedCollateral row.unrealizedPnl
      accountEquity
    .ok
      { symbol := position.symbol
        size := position.signedSize
        entryPrice := position.entryPrice
        realizedPnl := position.realizedPnl
        fees := position.fees
        funding := position.funding
        unrealizedPnl := unrealizedPnl position mark
        notional := row.notional
        leverage := row.leverage
        marginMode := row.marginMode
        marginUsed := row.marginUsed
        maintenanceMargin := row.maintenanceMargin
        liquidationPrice := liquidation.resolve
          (liquidationPrice row.net mark backing
            (liquidationMaintenance row.marginMode row.maintenanceMargin accountMaintenanceMargin)
            spec)
        effectiveLeverage := effectiveLeverage row.notional backing
        markTs := markTs }

/-- Everything a valuation reads. -/
structure Book where
  account : Account
  positions : List Position
  marks : Dict Symbol Decimal
  leverage : LeverageBook
  specs : Dict Symbol InstrumentSpec

namespace Book

def rows (book : Book) : Dict Symbol SymbolValuation :=
  accountValuation book.positions book.marks book.leverage book.specs

def view (book : Book) : AccountView := accountView book.account book.rows

/-- The same book at another mark for one symbol. -/
def remark (book : Book) (symbol : Symbol) (mark : Decimal) : Book :=
  { book with marks := book.marks.set symbol mark }

/-- What backs a row, at the grain of its mode. -/
def backing (book : Book) (row : SymbolValuation) : Option Decimal :=
  backingCollateral row.marginMode row.isolatedCollateral row.unrealizedPnl book.view.equity

/-- What is owed on that. -/
def owed (book : Book) (row : SymbolValuation) : Option Decimal :=
  liquidationMaintenance row.marginMode row.maintenanceMargin book.view.totalMaintenanceMargin

/-- `_liquidation_price` of a symbol's row, with the inputs `_view` gives it. -/
def liquidationPrice (book : Book) (symbol : Symbol) : Option Decimal :=
  (book.rows.get symbol).bind fun row =>
    Domain.liquidationPrice row.net (book.marks.get symbol) (book.backing row) (book.owed row)
      (book.specs.get symbol)

/-- `_view`: one partition, its symbol's row and the account off one fold. -/
def positionView (book : Book) (position : Position) (markTs : Option Nanos)
    (liquidation : LiquidationSource) : Option (Except InvariantViolation PositionView) :=
  (book.rows.get position.symbol).map fun row =>
    Domain.positionView position row book.view.equity book.view.totalMaintenanceMargin
      (book.marks.get position.symbol) markTs (book.specs.get position.symbol) liquidation

end Book

/-! ## Reading the fold -/

/-- The partitions of one symbol. -/
def onSymbol (positions : List Position) (symbol : Symbol) : List Position :=
  positions.filter fun position => position.symbol = symbol

def sizes (positions : List Position) : Decimal := (positions.map Position.signedSize).sum

def costs (positions : List Position) : Decimal := (positions.map Position.costBasis).sum

theorem sizes_cons (position : Position) (rest : List Position) :
    sizes (position :: rest) = position.signedSize + sizes rest := List.sum_cons

theorem costs_cons (position : Position) (rest : List Position) :
    costs (position :: rest) = position.costBasis + costs rest := List.sum_cons

theorem foldl_size (positions : List Position) (start : Decimal) :
    positions.foldl (fun net position => net + position.signedSize) start =
      start + sizes positions := by
  induction positions generalizing start with
  | nil => exact (add_zero start).symm
  | cons position rest ih =>
      rw [List.foldl_cons, ih, sizes_cons, add_assoc]

/-- A marked book's uPnL is its size at the mark, less its cost. -/
theorem foldl_upnl (positions : List Position) (mark start : Decimal) :
    positions.foldl (fun running position => total running (unrealizedPnl position (some mark)))
      (some start) = some (start + (sizes positions * mark - costs positions)) := by
  induction positions generalizing start with
  | nil =>
      refine congrArg some ?_
      simp only [sizes, costs, List.map_nil, List.sum_nil]
      ring
  | cons position rest ih =>
      have term : unrealizedPnl position (some mark) =
          some (position.signedSize * mark - position.costBasis) := by
        unfold unrealizedPnl Position.isFlat Position.costBasis
        split
        · rename_i flat
          rw [decide_eq_true_eq] at flat
          rw [flat, zero_mul, zero_mul, sub_zero]
        · refine congrArg some ?_
          unfold Position.unrealizedPnl
          ring
      rw [List.foldl_cons, term]
      refine (ih _).trans (congrArg some ?_)
      rw [sizes_cons, costs_cons]
      ring

section Book

variable {book : Book} {symbol : Symbol}

theorem get_accountNetSize (positions : List Position) (symbol : Symbol) :
    (accountNetSize positions).get symbol =
      if onSymbol positions symbol = [] then none else some (sizes (onSymbol positions symbol)) := by
  unfold accountNetSize
  rw [Dict.get_gather]
  unfold onSymbol
  rw [foldl_size, zero_add]

theorem get_upnlBySymbol (positions : List Position) (marks : Dict Symbol Decimal)
    (symbol : Symbol) :
    (upnlBySymbol positions marks).get symbol =
      if onSymbol positions symbol = [] then none
      else some ((onSymbol positions symbol).foldl (fun running position =>
        total running (unrealizedPnl position (marks.get symbol))) (some 0)) := by
  unfold upnlBySymbol
  rw [Dict.get_gather]
  unfold onSymbol
  have same : (positions.filter fun position => position.symbol = symbol).foldl
        (fun running position =>
          total running (unrealizedPnl position (marks.get position.symbol))) (some 0) =
      (positions.filter fun position => position.symbol = symbol).foldl
        (fun running position => total running (unrealizedPnl position (marks.get symbol)))
        (some 0) := by
    apply List.foldl_ext
    intro running position member
    have is : position.symbol = symbol := by simpa using (List.mem_filter.mp member).2
    rw [is]
  rw [same]

/-- The row of a held symbol. -/
theorem Book.get_rows (book : Book) (symbol : Symbol) :
    book.rows.get symbol = ((accountNetSize book.positions).get symbol).map
      (rowOf book.positions book.marks book.leverage book.specs symbol) :=
  Dict.get_mapKeyed _ _ _

/-- Another symbol's mark is no term of this one's row. -/
theorem rowOf_remark_ne {other : Symbol} (ne : other ≠ symbol) (mark size : Decimal) :
    rowOf book.positions (book.marks.set symbol mark) book.leverage book.specs other size =
      rowOf book.positions book.marks book.leverage book.specs other size := by
  have same : (book.marks.set symbol mark).get other = book.marks.get other :=
    Dict.get_set_ne _ _ (Ne.symm ne)
  unfold rowOf
  simp only [get_upnlBySymbol, same]

/-- The uPnL of a marked symbol that is held. -/
theorem upnl_marked {positions : List Position} {marks : Dict Symbol Decimal} {mark : Decimal}
    (held : onSymbol positions symbol ≠ []) (marked : marks.get symbol = some mark) :
    ((upnlBySymbol positions marks).get symbol).getD (some 0) =
      some (sizes (onSymbol positions symbol) * mark - costs (onSymbol positions symbol)) := by
  rw [get_upnlBySymbol, if_neg held, Option.getD_some, marked, foldl_upnl, zero_add]

theorem maintenance_marked {net mark : Decimal} {spec : InstrumentSpec} (held : net ≠ 0) :
    maintenanceMargin (notionalOf net (some mark)) (some spec) =
      some (|net| * mark * spec.marginMaint) := by
  unfold maintenanceMargin notionalOf
  rw [if_neg held]
  simp only [Option.map_some, Option.some.injEq, Option.bind_some]
  split
  · rename_i nothing
    rw [nothing, zero_mul]
  · rfl

/-- A sum over the rows moves by what the remarked symbol's own term moves. -/
theorem Book.summed_remark {net old new sum : Decimal} (mark : Decimal) (f : SymbolValuation → Option Decimal)
    (there : (accountNetSize book.positions).get symbol = some net)
    (was : f (rowOf book.positions book.marks book.leverage book.specs symbol net) = some old)
    (is : f (rowOf book.positions (book.marks.set symbol mark) book.leverage book.specs symbol
      net) = some new)
    (known : summed (book.rows.values.map f) = some sum) :
    summed ((book.remark symbol mark).rows.values.map f) = some (sum + (new - old)) := by
  have member : (symbol, net) ∈ (accountNetSize book.positions).entries :=
    (Dict.get_eq_some _ _ _).mp there
  have nodup := List.Nodup.of_map Prod.fst (accountNetSize book.positions).nodup
  have before : book.rows.values.map f = (accountNetSize book.positions).entries.map fun entry =>
      f (rowOf book.positions book.marks book.leverage book.specs entry.1 entry.2) := by
    unfold Book.rows accountValuation
    rw [Dict.values_mapKeyed, List.map_map]
    rfl
  have after : (book.remark symbol mark).rows.values.map f =
      (accountNetSize book.positions).entries.map fun entry =>
        f (rowOf book.positions (book.marks.set symbol mark) book.leverage book.specs entry.1
          entry.2) := by
    unfold Book.rows accountValuation Book.remark
    rw [Dict.values_mapKeyed, List.map_map]
    rfl
  rw [before] at known
  rw [after]
  refine summed_replace nodup member (fun other held ne => ?_) was is known
  have elsewhere : other.1 ≠ symbol := by
    intro same
    have its : (accountNetSize book.positions).get symbol = some other.2 :=
      (Dict.get_eq_some _ _ _).mpr (same ▸ held)
    rw [there] at its
    exact ne (Prod.ext same (Option.some.inj its).symm)
  rw [rowOf_remark_ne elsewhere]

/-- **Another mark moves the backing by the net size and the maintenance by the rate on its
magnitude**, at the grain of the mode. -/
theorem Book.backs_remark {row : SymbolValuation} {mark backing owed : Decimal}
    {spec : InstrumentSpec} (there : book.rows.get symbol = some row) (open_ : row.net ≠ 0)
    (marked : book.marks.get symbol = some mark) (rated : book.specs.get symbol = some spec)
    (backs : book.backing row = some backing) (owes : book.owed row = some owed)
    (other : Decimal) :
    ∃ after, (book.remark symbol other).rows.get symbol = some after ∧ after.net = row.net ∧
      (book.remark symbol other).backing after = some (backing + row.net * (other - mark)) ∧
      (book.remark symbol other).owed after =
        some (owed + |row.net| * spec.marginMaint * (other - mark)) := by
  rw [Book.get_rows, Option.map_eq_some_iff] at there
  obtain ⟨net, held, rfl⟩ := there
  have some_ : onSymbol book.positions symbol ≠ [] := by
    intro none_
    rw [get_accountNetSize, if_pos none_] at held
    cases held
  have netIs : net = sizes (onSymbol book.positions symbol) := by
    rw [get_accountNetSize, if_neg some_] at held
    exact (Option.some.inj held).symm
  have remarked : (book.marks.set symbol other).get symbol = some other := Dict.get_set_self _ _ _
  have upnl := upnl_marked some_ marked
  have upnlAfter := upnl_marked some_ remarked
  have maintenance : maintenanceMargin (notionalOf net (book.marks.get symbol))
      (book.specs.get symbol) = some (|net| * mark * spec.marginMaint) := by
    rw [marked, rated]
    exact maintenance_marked open_
  have maintenanceAfter : maintenanceMargin
      (notionalOf net ((book.marks.set symbol other).get symbol)) (book.specs.get symbol) =
        some (|net| * other * spec.marginMaint) := by
    rw [remarked, rated]
    exact maintenance_marked open_
  refine ⟨rowOf book.positions (book.marks.set symbol other) book.leverage book.specs symbol net,
    ?_, rfl, ?_, ?_⟩
  · rw [Book.get_rows]
    simp only [Book.remark, held, Option.map_some]
  · unfold Book.backing backingCollateral at backs ⊢
    simp only [rowOf] at backs ⊢
    cases mode : (book.leverage.forSymbol symbol).mode with
    | isolated =>
        rw [mode] at backs
        simp only [upnl, total_eq_some] at backs
        obtain ⟨bucket, _, posted, is, rfl⟩ := backs
        cases is
        simp only [upnlAfter, posted, total_eq_some]
        refine ⟨_, _, rfl, rfl, ?_⟩
        rw [netIs]
        ring
    | cross =>
        rw [mode] at backs
        simp only [Book.view, accountView, total_eq_some] at backs ⊢
        obtain ⟨cash, sum, is, known, rfl⟩ := backs
        have moved := Book.summed_remark other SymbolValuation.unrealizedPnl held
          upnl upnlAfter known
        refine ⟨_, _, rfl, moved, ?_⟩
        cases is
        rw [netIs]
        simp only [Book.remark]
        ring
  · unfold Book.owed liquidationMaintenance at owes ⊢
    simp only [rowOf] at owes ⊢
    cases mode : (book.leverage.forSymbol symbol).mode with
    | isolated =>
        rw [mode] at owes
        simp only [maintenance, Option.some.injEq] at owes
        subst owes
        simp only [maintenanceAfter, Option.some.injEq]
        ring
    | cross =>
        rw [mode] at owes
        simp only [Book.view, accountView] at owes ⊢
        have moved := Book.summed_remark other SymbolValuation.maintenanceMargin held
          maintenance maintenanceAfter owes
        rw [moved]
        refine congrArg some ?_
        ring

end Book

/-! ## The level -/

/-- The side of a net size. -/
def sideOf (net : Decimal) : Decimal := if 0 < net then 1 else -1

/-- The price at which a backing that moves by `net` meets a maintenance that moves by
`rate` on its magnitude. -/
def levelOf (net mark backing maintenance rate : Decimal) : Decimal :=
  mark - sideOf net * (backing - maintenance) / |net| / (1 - rate * sideOf net)

section Level

variable {net mark backing maintenance rate : Decimal}

theorem sideOf_cases (open_ : net ≠ 0) :
    (0 < net ∧ sideOf net = 1 ∧ |net| = net) ∨ (net < 0 ∧ sideOf net = -1 ∧ |net| = -net) := by
  rcases lt_or_gt_of_ne open_ with short | long
  · exact Or.inr ⟨short, if_neg (not_lt.mpr short.le), abs_of_neg short⟩
  · exact Or.inl ⟨long, if_pos long, abs_of_pos long⟩

/-- At the level the two meet. -/
theorem levelOf_meets (open_ : net ≠ 0) (nonneg : 0 ≤ rate) (below : rate < 1) :
    backing + net * (levelOf net mark backing maintenance rate - mark) =
      maintenance + |net| * rate * (levelOf net mark backing maintenance rate - mark) := by
  unfold levelOf
  rcases sideOf_cases open_ with ⟨_, side, size⟩ | ⟨_, side, size⟩
  · have moves : 1 - rate ≠ 0 := by linarith
    rw [side, size, mul_one]
    field_simp
    ring
  · have moves : 1 + rate ≠ 0 := by linarith
    have negated : (1 : Decimal) - rate * -1 = 1 + rate := by ring
    rw [side, size, negated]
    field_simp
    ring

/-- **The mark cancels**: solved from another one, with backing and maintenance moved as
it moves them, the level is the same. -/
theorem levelOf_shift (open_ : net ≠ 0) (nonneg : 0 ≤ rate) (below : rate < 1)
    (other : Decimal) :
    levelOf net other (backing + net * (other - mark))
      (maintenance + |net| * rate * (other - mark)) rate =
        levelOf net mark backing maintenance rate := by
  unfold levelOf
  rcases sideOf_cases open_ with ⟨_, side, size⟩ | ⟨_, side, size⟩
  · have moves : 1 - rate ≠ 0 := by linarith
    rw [side, size, mul_one]
    field_simp
    ring
  · have moves : 1 + rate ≠ 0 := by linarith
    have negated : (1 : Decimal) - rate * -1 = 1 + rate := by ring
    rw [side, size, negated]
    field_simp
    ring

/-- **When there is a liquidation price**, and which one it is. -/
theorem liquidationPrice_eq_some {mark backing maintenance : Option Decimal}
    {spec : Option InstrumentSpec} {price : Decimal} :
    liquidationPrice net mark backing maintenance spec = some price ↔
      net ≠ 0 ∧ 0 < price ∧ ∃ m b o s, mark = some m ∧ backing = some b ∧ maintenance = some o ∧
        spec = some s ∧ price = levelOf net m b o s.marginMaint := by
  unfold liquidationPrice
  by_cases flat : net = 0
  · simp [flat]
  rw [if_neg flat]
  cases mark with
  | none => simp
  | some m =>
      cases backing with
      | none => simp
      | some b =>
          cases maintenance with
          | none => simp
          | some o =>
              cases spec with
              | none => simp
              | some s =>
                  have is : ∀ level : Decimal, ((if 0 < level then some level else none) =
                      some price ↔ 0 < price ∧ price = level) := by
                    intro level
                    split
                    · rename_i positive
                      constructor
                      · rintro same
                        cases same
                        exact ⟨positive, rfl⟩
                      · rintro ⟨_, rfl⟩
                        rfl
                    · rename_i nothing
                      constructor
                      · rintro absurd
                        cases absurd
                      · rintro ⟨positive, rfl⟩
                        exact absurd positive nothing
                  refine (is (levelOf net m b o s.marginMaint)).trans ?_
                  constructor
                  · rintro ⟨positive, rfl⟩
                    exact ⟨flat, positive, m, b, o, s, rfl, rfl, rfl, rfl, rfl⟩
                  · rintro ⟨_, positive, _, _, _, _, ⟨⟩, ⟨⟩, ⟨⟩, ⟨⟩, rfl⟩
                    exact ⟨positive, rfl⟩

end Level

/-- Every partition of the book has a row, its own symbol's, so its view is never refused
and reads the symbol's price where the formula answers. -/
theorem Book.positionView_level (book : Book) {position : Position}
    (held : position ∈ book.positions) (markTs : Option Nanos) (liquidation : LiquidationSource) :
    ∃ view, book.positionView position markTs liquidation = some (.ok view) ∧
      view.liquidationPrice = liquidation.resolve (book.liquidationPrice position.symbol) := by
  have some_ : onSymbol book.positions position.symbol ≠ [] :=
    List.ne_nil_of_mem (List.mem_filter.mpr ⟨held, by simp⟩)
  have there := book.get_rows position.symbol
  rw [get_accountNetSize, if_neg some_, Option.map_some] at there
  unfold Book.positionView Book.liquidationPrice
  simp only [there, Option.map_some, Option.bind_some, Domain.positionView, rowOf, ne_eq,
    not_true_eq_false, if_false]
  exact ⟨_, rfl, rfl⟩

/-- **The liquidation price is the exact break point.**  At it the backing is the
maintenance, at the grain of the mode, and it is the same from every mark. -/
theorem liquidation_price_exact {book : Book} {symbol : Symbol}
    (rates : ∀ spec, book.specs.get symbol = some spec →
      0 ≤ spec.marginMaint ∧ spec.marginMaint < 1)
    {price : Decimal} (level : book.liquidationPrice symbol = some price) :
    (∃ row, (book.remark symbol price).rows.get symbol = some row ∧
      (row.marginMode = .isolated → ∃ bucket upnl, row.isolatedCollateral = some bucket ∧
        row.unrealizedPnl = some upnl ∧ row.maintenanceMargin = some (bucket + upnl)) ∧
      (row.marginMode = .cross → ∃ equity, (book.remark symbol price).view.equity = some equity ∧
        (book.remark symbol price).view.totalMaintenanceMargin = some equity)) ∧
    ∀ mark, (book.remark symbol mark).liquidationPrice symbol = some price := by
  obtain ⟨row, there, solved⟩ := Option.bind_eq_some_iff.mp level
  obtain ⟨open_, positive, mark, backing, owed, spec, marked, backs, owes, rated, is⟩ :=
    liquidationPrice_eq_some.mp solved
  obtain ⟨nonneg, below⟩ := rates spec rated
  constructor
  · obtain ⟨after, its, _, backsAfter, owesAfter⟩ :=
      Book.backs_remark there open_ marked rated backs owes price
    have meet : backing + row.net * (price - mark) =
        owed + |row.net| * spec.marginMaint * (price - mark) := by
      rw [is]
      exact levelOf_meets open_ nonneg below
    rw [meet] at backsAfter
    refine ⟨after, its, fun mode => ?_, fun mode => ?_⟩
    · unfold Book.backing backingCollateral at backsAfter
      unfold Book.owed liquidationMaintenance at owesAfter
      rw [mode] at backsAfter owesAfter
      obtain ⟨bucket, upnl, posted, unrealized, sum⟩ := total_eq_some.mp backsAfter
      exact ⟨bucket, upnl, posted, unrealized, sum ▸ owesAfter⟩
    · unfold Book.backing backingCollateral at backsAfter
      unfold Book.owed liquidationMaintenance at owesAfter
      rw [mode] at backsAfter owesAfter
      exact ⟨_, backsAfter, owesAfter⟩
  · intro other
    obtain ⟨after, its, net, backsAfter, owesAfter⟩ :=
      Book.backs_remark there open_ marked rated backs owes other
    unfold Book.liquidationPrice
    rw [its, Option.bind_some, liquidationPrice_eq_some, net]
    refine ⟨open_, positive, other, _, _, spec, Dict.get_set_self _ _ _, backsAfter, owesAfter,
      rated, ?_⟩
    rw [is]
    exact (levelOf_shift open_ nonneg below other).symm

namespace Sample

/-- Long 3 and short 1 on one isolated symbol, at a rate of 1/20. -/
def isolatedBook : Book where
  account := { accountId := "main", genesisCollateral := 0, genesisTsNs := 0, cash := 500 }
  positions :=
    [{ owner := some operator, symbol := "BTC", signedSize := 3, entryPrice := 100,
       isolatedCollateral := some 30 },
      { owner := none, symbol := "BTC", signedSize := -1, entryPrice := 90,
        isolatedCollateral := some 10 }]
  marks := Dict.empty.set "BTC" 110
  leverage := {}
  specs := Dict.empty.set "BTC"
    { szDecimals := 3, maxDecimals := 6, minNotional := 10, marginMaint := 1 / 20 }

/-- Its price is 1700/19, and at 95 it would be read as the same. -/
theorem isolatedBook_level : isolatedBook.liquidationPrice "BTC" = some (1700 / 19) ∧
    (isolatedBook.remark "BTC" 95).liquidationPrice "BTC" = some (1700 / 19) := by
  have level : isolatedBook.liquidationPrice "BTC" = some (1700 / 19) := by decide +kernel
  refine ⟨level, (liquidation_price_exact (fun spec rated => ?_) level).2 95⟩
  cases rated
  constructor <;> norm_num

end Sample

end Tickwright.Domain
