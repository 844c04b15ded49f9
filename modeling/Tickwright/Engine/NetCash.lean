/-
# Engine.NetCash -- what the fills of a run leave in cash, however attributed

A run books fills of any orders, each whole on its order's own partition or, for
a flatten order, cut into one piece per partition it moves.  Cash moves only by
the realized leg and the fee of each partition a fill reaches, through four
regimes of the reducer; what none of them moves is cash less the cost of every
open partition, which pays each fill's notional and fee once.

* `Deliverable` is what the venue and the placement gate promise of one fill;
  `pieces_deliver` reads off the pieces it books: distinct partitions, and in sum
  the fill's own signed size and fee;
* `Ledger` is the run's invariant: the partitions have filed exactly the ids of
  the fills booked so far, and net cash is what those cost;
* `net_cash_exact` is the result over every prefix, with the comparison of one
  flatten fill split and booked whole.
-/
import Tickwright.Engine.Batch
import Tickwright.Engine.FlattenRun
import Mathlib.Algebra.BigOperators.Group.Finset.Basic

namespace Tickwright.Engine

open Tickwright.Domain Tickwright.Theory Tickwright.Store

set_option autoImplicit false

/-! ## A shared fee adds up -/

/-- **The shares of a fee add up to it**, the residue on the largest move. -/
theorem sum_splitFee {moves : List (String × Decimal)} (distinct : (moves.map Prod.fst).Nodup)
    (some_ : moves ≠ []) (fee : Decimal) :
    (moves.map fun move => ((splitFee moves fee).get move.1).getD 0).sum = fee := by
  have filed : ∀ value : String × Decimal → Decimal,
      (Dict.empty.setAll (moves.map fun move => (move.1, value move))).keys =
        moves.map Prod.fst := by
    intro value
    unfold Dict.keys
    rw [Dict.entries_setAll (by
      show ((([] : List (String × Decimal)) ++ _).map Prod.fst).Nodup
      rw [List.nil_append, List.map_map]
      exact distinct)]
    show (([] : List (String × Decimal)) ++ _).map Prod.fst = _
    rw [List.nil_append, List.map_map]
    rfl
  unfold splitFee
  simp only
  generalize sharesAre : Dict.empty.setAll (moves.map fun move =>
    (move.1, quantize (fee * |move.2| / (moves.map fun move => |move.2|).sum)
      ((10 : Decimal) ^ (adjusted fee - 20)))) = shares
  have sharesKeys : shares.keys = moves.map Prod.fst := by rw [← sharesAre]; exact filed _
  have owners : sortedOwners (Dict.empty.setAll (moves.map fun move => (move.1, |move.2|))).keys ≠
      [] := by
    rw [filed]
    intro none_
    obtain ⟨first, there⟩ := List.exists_mem_of_ne_nil _ some_
    have member := (mem_sortedOwners (moves.map Prod.fst) first.1).mpr (List.mem_map_of_mem there)
    rw [none_] at member
    cases member
  obtain ⟨largest, picked, named, _⟩ := firstMax_spec
    (fun owner => ((Dict.empty.setAll (moves.map fun move => (move.1, |move.2|))).get owner).getD 0)
    owners
  rw [picked]
  simp only
  have member : largest ∈ moves.map Prod.fst := by
    rw [mem_sortedOwners, filed] at named
    exact named
  have read : ∀ d : Dict String Decimal, (moves.map fun move => (d.get move.1).getD 0) =
      (moves.map Prod.fst).map fun owner => (d.get owner).elim 0 id := by
    intro d
    rw [List.map_map]
    apply List.map_congr_left
    intro move _
    show (d.get move.1).getD 0 = (d.get move.1).elim 0 id
    cases d.get move.1 <;> rfl
  rw [read, Dict.sum_keys _ _ distinct (fun owner => by
    rw [Dict.mem_keys_set, sharesKeys]
    constructor
    · exact Or.inr
    · rintro (rfl | there)
      · exact member
      · exact there), Dict.sum_set]
  have total : shares.sum id = shares.values.sum := by
    unfold Dict.sum
    rw [List.map_id]
  have old : (shares.get largest).elim 0 id = (shares.get largest).getD 0 := by
    cases shares.get largest <;> rfl
  rw [total, old]
  simp only [id]
  ring

/-- **The fees of a split add up to the fill's fee.** -/
theorem flattenSplit_fees {basis : Basis} {lotSize cumQty quantity fee : Decimal}
    (distinct : (basis.map Prod.fst).Nodup) {moves : List (String × PartitionMove)}
    (split : flattenSplit basis lotSize cumQty quantity fee = .ok moves) (some_ : moves ≠ []) :
    (moves.map Prod.fst).Nodup ∧ (moves.map fun move => move.2.fee).sum = fee := by
  have sizes := (flattenSplit_ok distinct split).2
  have owners : moves.map Prod.fst = (sizesOf moves).map Prod.fst := by
    unfold sizesOf
    rw [List.map_map]
    rfl
  have nodup : (moves.map Prod.fst).Nodup := by
    rw [owners, sizes]
    unfold fillMoves
    refine List.Nodup.sublist (List.Sublist.map _ List.filter_sublist) ?_
    rw [List.map_map]
    exact distinct
  refine ⟨nodup, ?_⟩
  have shared : ∀ move ∈ moves, move.2.fee = ((splitFee (sizesOf moves) fee).get move.1).getD 0 := by
    simp only [flattenSplit] at split
    split at split
    · cases split
    · split at split
      · cases split
      · split at split
        · cases split
        · cases split
        · cases split
          intro move member
          obtain ⟨sized, _, rfl⟩ := List.mem_map.mp member
          unfold sizesOf
          rw [List.map_map]
          show _ = ((splitFee (List.map id _) fee).get sized.1).getD 0
          rw [List.map_id]
  rw [List.map_congr_left shared]
  have back : (moves.map fun move => ((splitFee (sizesOf moves) fee).get move.1).getD 0) =
      (sizesOf moves).map fun move => ((splitFee (sizesOf moves) fee).get move.1).getD 0 := by
    conv_rhs => unfold sizesOf
    rw [List.map_map]
    rfl
  rw [back]
  apply sum_splitFee
  · rw [← owners]
    exact nodup
  · intro none_
    exact some_ (List.map_eq_nil_iff.mp none_)

/-! ## One fill and its pieces -/

/-- What the venue reports of one fill of an order. -/
structure VenueFill where
  quantity : Decimal
  price : Decimal
  cumQty : Decimal
  fee : Decimal

/-- What one fill of an order puts on the account: its signed notional and fee. -/
def VenueFill.outlay (fill : VenueFill) (side : Side) : Decimal :=
  side.sign * fill.quantity * fill.price + fill.fee

/-- What a fill is promised to be.  A flatten order was accepted over
lot-aligned partitions, and the venue fills it on its lot grid within what was
approved. -/
structure Deliverable (config : Config) (order : Order) (fill : VenueFill) : Prop where
  positive : 0 < fill.quantity
  flatten : ∀ basis, order.splitBasis = some basis → ∃ szDecimals,
    config.szDecimals order.symbol = some szDecimals ∧ (basis.map Prod.fst).Nodup ∧
      Aligned basis ((10 : Decimal) ^ (-szDecimals)) ∧
      splitRefusal basis order.side order.quantity = none ∧
      OnGrid ((10 : Decimal) ^ (-szDecimals)) fill.quantity ∧
      (∃ lots : ℕ, fill.cumQty = lots * (10 : Decimal) ^ (-szDecimals) + fill.quantity) ∧
      fill.cumQty ≤ order.quantity

/-- The trade an event id is of. -/
def tradeOf : EventId → Option (Cloid × String)
  | .fill cloid tradeId => some (cloid, tradeId)
  | .piece cloid tradeId _ => some (cloid, tradeId)
  | _ => none

/-- What the pieces of one fill are, whole or split. -/
structure Pieces (order : Order) (tradeId : String) (fill : VenueFill) (pieces : List Piece) :
    Prop where
  positive : ∀ piece ∈ pieces, 0 < piece.1.quantity
  distinct : (pieces.map Piece.key).Nodup
  named : ∀ piece ∈ pieces, tradeOf piece.1.eventId = some (order.cloid, tradeId)
  symbol : ∀ piece ∈ pieces, piece.1.symbol = order.symbol
  price : ∀ piece ∈ pieces, piece.1.price = fill.price
  signed : (pieces.map Piece.signed).sum = order.side.sign * fill.quantity
  fee : (pieces.map fun piece => piece.1.fee).sum = fill.fee

section OneFill

variable {config : Config} {order : Order} {tradeId : String} {fill : VenueFill}

/-- **A split fill's pieces** go to distinct partitions and add up to it. -/
theorem split_pieces {basis : Basis} {szDecimals : ℤ}
    (spec : config.szDecimals order.symbol = some szDecimals)
    (distinct : (basis.map Prod.fst).Nodup) (aligned : Aligned basis ((10 : Decimal) ^ (-szDecimals)))
    (accepted : splitRefusal basis order.side order.quantity = none)
    (grid : OnGrid ((10 : Decimal) ^ (-szDecimals)) fill.quantity)
    (cum : ∃ lots : ℕ, fill.cumQty = lots * (10 : Decimal) ^ (-szDecimals) + fill.quantity)
    (within : fill.cumQty ≤ order.quantity) :
    ∃ pieces, splitFill config basis order tradeId fill.quantity fill.price fill.cumQty fill.fee =
      .ok pieces ∧ Pieces order tradeId fill pieces := by
  have positive : (0 : Decimal) < (10 : Decimal) ^ (-szDecimals) := zpow_pos (by norm_num) _
  obtain ⟨net, side, fits⟩ := splitRefusal_none accepted
  obtain ⟨lots, some_, quantity⟩ := grid
  obtain ⟨start, cumIs⟩ := cum
  have lotsNet : 0 < lotNet basis ((10 : Decimal) ^ (-szDecimals)) := by
    have lotsAre := lotNet_mul positive aligned
    have above : (0 : Decimal) < (lotNet basis ((10 : Decimal) ^ (-szDecimals)) : Decimal) *
        (10 : Decimal) ^ (-szDecimals) := by
      rw [lotsAre]
      exact abs_pos.mpr net
    exact_mod_cast (mul_pos_iff_of_pos_right positive).mp above
  obtain ⟨moves, split⟩ := flattenSplit_defined distinct lotsNet.ne' net
    (within.trans fits) fill.quantity fill.fee
  have onGrid := split
  rw [cumIs, quantity] at onGrid
  have sum := cut_sum positive distinct lotsNet onGrid
  rw [side, ← quantity] at sum
  have above : 0 < fill.quantity := onGrid_pos positive ⟨lots, some_, quantity⟩
  have moving : moves ≠ [] := by
    rintro rfl
    have zero : order.side.sign * fill.quantity = 0 := sum.symm
    have signed : order.side.sign ≠ 0 := by cases order.side <;> norm_num [Side.sign]
    exact (mul_ne_zero signed above.ne') zero
  have booked := @splitFill_of_flattenSplit config basis order szDecimals spec
    ⟨tradeId, fill.quantity, fill.price, fill.fee⟩ fill.cumQty moves split
  rw [if_neg moving] at booked
  obtain ⟨owners, fees⟩ := flattenSplit_fees distinct split moving
  refine ⟨_, booked, ?_⟩
  have each : ∀ piece ∈ moves.map (pieceOf order ⟨tradeId, fill.quantity, fill.price, fill.fee⟩),
      ∃ move ∈ moves, piece = pieceOf order ⟨tradeId, fill.quantity, fill.price, fill.fee⟩ move := by
    intro piece member
    obtain ⟨move, there, rfl⟩ := List.mem_map.mp member
    exact ⟨move, there, rfl⟩
  constructor
  · intro piece member
    obtain ⟨move, there, rfl⟩ := each piece member
    exact abs_pos.mpr (flattenSplit_size_ne_zero split there)
  · rw [List.map_map]
    have keys : moves.map (Piece.key ∘ pieceOf order
        ⟨tradeId, fill.quantity, fill.price, fill.fee⟩) =
        (moves.map Prod.fst).map fun owner => (Owner.ofStored owner, order.symbol) := by
      rw [List.map_map]
      rfl
    rw [keys]
    apply owners.map
    intro first second same
    have is := congrArg (fun k : PartitionKey => Owner.stored k.1) same
    simpa only [stored_ofStored] using is
  · intro piece member
    obtain ⟨move, _, rfl⟩ := each piece member
    rfl
  · intro piece member
    obtain ⟨move, _, rfl⟩ := each piece member
    rfl
  · intro piece member
    obtain ⟨move, _, rfl⟩ := each piece member
    rfl
  · rw [← sum]
    exact sum_pieces order ⟨tradeId, fill.quantity, fill.price, fill.fee⟩ moves
  · rw [List.map_map, ← fees]
    rfl

/-- **A fill that may be delivered is booked as pieces that add up to it.** -/
theorem pieces_deliver (deliverable : Deliverable config order fill) :
    ∃ pieces, piecesOf config order tradeId fill.quantity fill.price fill.cumQty fill.fee =
      .ok pieces ∧ Pieces order tradeId fill pieces := by
  unfold piecesOf
  cases basisIs : order.splitBasis with
  | none =>
      refine ⟨_, rfl, ?_⟩
      constructor
      · intro piece member
        rw [List.mem_singleton.mp member]
        exact deliverable.positive
      · exact List.nodup_singleton _
      · intro piece member
        rw [List.mem_singleton.mp member]
        rfl
      · intro piece member
        rw [List.mem_singleton.mp member]
        rfl
      · intro piece member
        rw [List.mem_singleton.mp member]
        rfl
      · exact add_zero _
      · exact add_zero _
  | some basis =>
      obtain ⟨szDecimals, spec, distinct, aligned, accepted, grid, cum, within⟩ :=
        deliverable.flatten basis basisIs
      exact split_pieces spec distinct aligned accepted grid cum within

/-- What the pieces of one fill cost is what the fill costs. -/
theorem Pieces.outlay {pieces : List Piece} (are : Pieces order tradeId fill pieces) :
    (pieces.map Piece.outlay).sum = fill.outlay order.side := by
  have priced : ∀ some_ : List Piece, (∀ piece ∈ some_, piece.1.price = fill.price) →
      (some_.map Piece.outlay).sum = (some_.map Piece.signed).sum * fill.price +
        (some_.map fun piece => piece.1.fee).sum := by
    intro some_ price
    induction some_ with
    | nil => simp
    | cons piece rest ih =>
        rw [List.map_cons, List.sum_cons, ih fun other member =>
          price other (List.mem_cons_of_mem _ member)]
        simp only [List.map_cons, List.sum_cons]
        unfold Piece.outlay
        rw [price piece List.mem_cons_self]
        ring
  rw [priced pieces are.price, are.signed, are.fee]
  rfl

end OneFill

/-! ## A run of fills -/

/-- A fill of a run, named by its order and its trade id. -/
abbrev TradeKey := Cloid × String

/-- Book one fill of the desk's `orders` as the venue's `trades` report it. -/
def bookTrade (config : Config) (orders : Cloid → Order) (trades : Cloid → String → VenueFill)
    (portfolio : Portfolio) (trade : TradeKey) : Except Fault Portfolio :=
  let fill := trades trade.1 trade.2
  match piecesOf config (orders trade.1) trade.2 fill.quantity fill.price fill.cumQty fill.fee with
  | .error fault => .error fault
  | .ok pieces =>
      match bookPieces config portfolio pieces with
      | .error violation => .error (.invariant violation)
      | .ok after => .ok after

/-- Book a run of fills in order. -/
def bookTrades (config : Config) (orders : Cloid → Order) (trades : Cloid → String → VenueFill) :
    Portfolio → List TradeKey → Except Fault Portfolio
  | portfolio, [] => .ok portfolio
  | portfolio, trade :: rest =>
      match bookTrade config orders trades portfolio trade with
      | .error fault => .error fault
      | .ok after => bookTrades config orders trades after rest

/-- The whole of one fill, on one partition of its symbol. -/
def wholeOf (order : Order) (owner : Owner) (tradeId : String) (fill : VenueFill) : Piece :=
  ({ bookableOf order tradeId fill.quantity fill.price fill.fee with owner := owner }, order.side)

/-- What committing a batch leaves in memory is the booked batch. -/
theorem commitFolds_books {config : Config} {process : Process} {order : Option Order}
    {pieces : List Piece} {tsNs : Nanos} {effects : List Effect}
    (folds : commitFolds config process.memory order pieces tsNs = .ok effects) :
    bookPieces config process.memory.portfolio pieces =
      .ok (process.play effects).memory.portfolio := by
  unfold commitFolds at folds
  unfold bookPieces
  cases is : process.memory.portfolio.applyFills config pieces with
  | error violation => rw [is] at folds; cases folds
  | ok pair =>
      obtain ⟨folded, changes⟩ := pair
      rw [is] at folds
      cases folds
      rfl

section Run

variable {config : Config} {orders : Cloid → Order} {trades : Cloid → String → VenueFill}

/-- What one fill of the run puts on the account. -/
def outlayOf (orders : Cloid → Order) (trades : Cloid → String → VenueFill) (trade : TradeKey) :
    Decimal :=
  (trades trade.1 trade.2).outlay (orders trade.1).side

/-- **The ledger after the fills `done`**: their ids are filed and no others are,
and net cash is `start` less what they cost, each once. -/
structure Ledger (config : Config) (orders : Cloid → Order)
    (trades : Cloid → String → VenueFill) (start : Decimal) (done : Finset TradeKey)
    (portfolio : Portfolio) : Prop where
  filed : Filed portfolio.positions
  booked : ∀ trade ∈ done, ∀ pieces,
    piecesOf config (orders trade.1) trade.2 (trades trade.1 trade.2).quantity
      (trades trade.1 trade.2).price (trades trade.1 trade.2).cumQty
      (trades trade.1 trade.2).fee = .ok pieces →
    ∀ piece ∈ pieces, Seen portfolio piece
  only : ∀ k id, id ∈ (portfolio.partition k).appliedEventIds →
    ∃ trade ∈ done, tradeOf id = some trade
  net : portfolio.netCash = start - ∑ trade ∈ done, outlayOf orders trades trade

variable {start : Decimal} {done : Finset TradeKey} {portfolio : Portfolio}

/-- The pieces of a fill of the run: fresh, unless the fill was booked before. -/
theorem Ledger.freshness (ledger : Ledger config orders trades start done portfolio)
    (own : ∀ cloid, (orders cloid).cloid = cloid) {trade : TradeKey} {pieces : List Piece}
    (cut : piecesOf config (orders trade.1) trade.2 (trades trade.1 trade.2).quantity
      (trades trade.1 trade.2).price (trades trade.1 trade.2).cumQty
      (trades trade.1 trade.2).fee = .ok pieces)
    (are : Pieces (orders trade.1) trade.2 (trades trade.1 trade.2) pieces) :
    freshOf portfolio pieces = if trade ∈ done then [] else pieces := by
  unfold freshOf
  by_cases before : trade ∈ done
  · rw [if_pos before, List.filter_eq_nil_iff]
    intro piece member
    simpa using ledger.booked trade before pieces cut piece member
  · rw [if_neg before, List.filter_eq_self]
    intro piece member
    simp only [decide_not, Bool.not_eq_true', decide_eq_false_iff_not]
    intro seen
    obtain ⟨other, held, named⟩ := ledger.only _ _ seen
    rw [are.named piece member, own] at named
    have is : trade = other := Option.some.inj named
    exact before (is ▸ held)

/-- **One fill, booked**: the ledger of one more fill, or of the same ones. -/
theorem Ledger.step (ledger : Ledger config orders trades start done portfolio)
    (own : ∀ cloid, (orders cloid).cloid = cloid) {trade : TradeKey}
    (deliverable : Deliverable config (orders trade.1) (trades trade.1 trade.2)) :
    ∃ after, bookTrade config orders trades portfolio trade = .ok after ∧
      Ledger config orders trades start (insert trade done) after := by
  obtain ⟨pieces, cut, are⟩ : ∃ pieces, piecesOf config (orders trade.1) trade.2 _ _ _ _ =
      .ok pieces ∧ Pieces (orders trade.1) trade.2 _ pieces := pieces_deliver deliverable
  obtain ⟨after, booked⟩ : ∃ after, bookPieces config portfolio pieces = .ok after :=
    bookPieces_ok ledger.filed are.positive
  have filing := bookPieces_filed ledger.filed are.distinct booked
  refine ⟨after, ?_, ?_, ?_, ?_, ?_⟩
  · unfold bookTrade
    simp only [cut, booked]
  · obtain ⟨_, _, filed, _⟩ := bookPieces_lands ledger.filed are.distinct booked
    exact filed
  · intro other held others otherCut piece member
    unfold Seen
    rw [filing]
    rcases Finset.mem_insert.mp held with rfl | before
    · rw [cut] at otherCut
      cases otherCut
      exact Or.inr ⟨piece, member, rfl, rfl⟩
    · exact Or.inl (ledger.booked other before others otherCut piece member)
  · intro k id filedId
    rcases (filing k id).mp filedId with old | ⟨piece, member, _, rfl⟩
    · obtain ⟨other, held, named⟩ := ledger.only k id old
      exact ⟨other, Finset.mem_insert_of_mem held, named⟩
    · refine ⟨trade, Finset.mem_insert_self _ _, ?_⟩
      rw [are.named piece member, own]
  · rw [bookPieces_netCash ledger.filed are.distinct booked, ledger.freshness own cut are, ledger.net]
    by_cases before : trade ∈ done
    · rw [if_pos before, Finset.insert_eq_of_mem before]
      exact sub_zero _
    · rw [if_neg before, Finset.sum_insert before, are.outlay]
      unfold outlayOf
      ring

/-- **A run of fills**, in any order and with any redelivered. -/
theorem Ledger.run (ledger : Ledger config orders trades start done portfolio)
    (own : ∀ cloid, (orders cloid).cloid = cloid) {run : List TradeKey}
    (deliverable : ∀ trade ∈ run, Deliverable config (orders trade.1) (trades trade.1 trade.2)) :
    ∃ after, bookTrades config orders trades portfolio run = .ok after ∧
      Ledger config orders trades start (done ∪ run.toFinset) after := by
  induction run generalizing portfolio done with
  | nil => exact ⟨portfolio, rfl, by rw [List.toFinset_nil, Finset.union_empty]; exact ledger⟩
  | cons trade rest ih =>
      obtain ⟨middle, first, next⟩ := ledger.step own (deliverable trade List.mem_cons_self)
      obtain ⟨after, more, last⟩ :=
        ih next fun other member => deliverable other (List.mem_cons_of_mem _ member)
      refine ⟨after, ?_, ?_⟩
      · unfold bookTrades
        rw [first]
        exact more
      · rw [List.toFinset_cons, Finset.union_insert, ← Finset.insert_union]
        exact last

theorem ledger_open (tsNs : Nanos) :
    Ledger config orders trades (config.spec.genesisCollateral.getD 0) ∅
      (Portfolio.openAt config tsNs) where
  filed := Filed.empty
  booked _ held := absurd held (Finset.notMem_empty _)
  only _ _ filed := absurd filed (Finset.notMem_empty _)
  net := by
    rw [Finset.sum_empty]
    rfl

/-- **Split or whole, one new fill leaves the account the same.** -/
theorem Ledger.split_or_whole (ledger : Ledger config orders trades start done portfolio)
    (own : ∀ cloid, (orders cloid).cloid = cloid) {trade : TradeKey}
    (deliverable : Deliverable config (orders trade.1) (trades trade.1 trade.2))
    (new : trade ∉ done) (owner : Owner) :
    ∃ split whole, bookTrade config orders trades portfolio trade = .ok split ∧
      bookPieces config portfolio
        [wholeOf (orders trade.1) owner trade.2 (trades trade.1 trade.2)] = .ok whole ∧
      split.netCash = whole.netCash ∧ split.totalFees = whole.totalFees ∧
      ∀ symbol, split.accountNet symbol = whole.accountNet symbol := by
  obtain ⟨pieces, cut, are⟩ : ∃ pieces, piecesOf config (orders trade.1) trade.2 _ _ _ _ =
      .ok pieces ∧ Pieces (orders trade.1) trade.2 _ pieces := pieces_deliver deliverable
  obtain ⟨split, booked⟩ : ∃ after, bookPieces config portfolio pieces = .ok after :=
    bookPieces_ok ledger.filed are.positive
  set piece := wholeOf (orders trade.1) owner trade.2 (trades trade.1 trade.2) with pieceIs
  obtain ⟨whole, once⟩ : ∃ after, bookPieces config portfolio [piece] = .ok after :=
    bookPieces_ok ledger.filed fun other member => by
      rw [List.mem_singleton.mp member]
      exact deliverable.positive
  have alone : ([piece].map Piece.key).Nodup := List.nodup_singleton _
  have fresh : freshOf portfolio pieces = pieces := by
    rw [ledger.freshness own cut are, if_neg new]
  have freshWhole : freshOf portfolio [piece] = [piece] := by
    unfold freshOf
    rw [List.filter_eq_self]
    intro other member
    rw [List.mem_singleton.mp member]
    simp only [decide_not, Bool.not_eq_true', decide_eq_false_iff_not]
    intro seen
    obtain ⟨held, before, named⟩ := ledger.only _ _ seen
    have keyed : some (trade.1, trade.2) = some held := by
      rw [← named, pieceIs]
      show _ = some ((orders trade.1).cloid, trade.2)
      rw [own]
    have is : trade = held := Option.some.inj keyed
    exact new (is ▸ before)
  refine ⟨split, whole, ?_, once, ?_, ?_, ?_⟩
  · unfold bookTrade
    simp only [cut, booked]
  · rw [bookPieces_netCash ledger.filed are.distinct booked,
      bookPieces_netCash ledger.filed alone once, fresh, freshWhole, are.outlay, List.map_singleton,
      List.sum_singleton]
    rfl
  · rw [bookPieces_fees ledger.filed are.distinct booked, bookPieces_fees ledger.filed alone once,
      fresh, freshWhole, are.fee, List.map_singleton, List.sum_singleton]
    rfl
  · intro symbol
    rw [bookPieces_net ledger.filed are.distinct booked, bookPieces_net ledger.filed alone once,
      fresh, freshWhole, List.map_singleton, List.sum_singleton]
    have onSymbol : (pieces.map fun piece : Piece => if piece.1.symbol = symbol then piece.signed else 0) =
        pieces.map fun piece : Piece => if (orders trade.1).symbol = symbol then piece.signed else 0 := by
      apply List.map_congr_left
      intro other member
      rw [are.symbol other member]
    have here : piece.1.symbol = (orders trade.1).symbol := rfl
    rw [onSymbol, here]
    by_cases same : (orders trade.1).symbol = symbol
    · simp only [if_pos same]
      rw [are.signed]
      rfl
    · simp only [if_neg same]
      rw [List.sum_map_zero]

/-- **Net cash is attribution-free.**  Over every run of fills, each booked whole
or split as its order says, in any order and however often redelivered, every
prefix is booked, and cash less the cost of every open partition is the genesis
collateral less the notional and fee of each distinct fill; and at every such
ledger a new fill, split over the partitions or booked whole on any one of them,
leaves the same net cash, the same net size of every symbol and the same fees. -/
theorem net_cash_exact (config : Config) (orders : Cloid → Order)
    (trades : Cloid → String → VenueFill) (tsNs : Nanos)
    (own : ∀ cloid, (orders cloid).cloid = cloid) (run : List TradeKey)
    (deliverable : ∀ trade ∈ run, Deliverable config (orders trade.1) (trades trade.1 trade.2))
    (n : ℕ) :
    ∃ ledger, bookTrades config orders trades (Portfolio.openAt config tsNs) (run.take n) =
        .ok ledger ∧
      ledger.account.cash - ledger.positions.sum Position.costBasis =
        config.spec.genesisCollateral.getD 0 - ∑ trade ∈ (run.take n).toFinset,
          ((orders trade.1).side.sign * (trades trade.1 trade.2).quantity *
            (trades trade.1 trade.2).price + (trades trade.1 trade.2).fee) ∧
      ∀ trade, trade ∉ run.take n →
        Deliverable config (orders trade.1) (trades trade.1 trade.2) → ∀ owner : Owner,
        ∃ split whole, bookTrade config orders trades ledger trade = .ok split ∧
          bookPieces config ledger
            [wholeOf (orders trade.1) owner trade.2 (trades trade.1 trade.2)] = .ok whole ∧
          split.netCash = whole.netCash ∧ split.totalFees = whole.totalFees ∧
          ∀ symbol, split.accountNet symbol = whole.accountNet symbol := by
  obtain ⟨ledger, booked, holds⟩ := (ledger_open tsNs).run own fun trade member =>
    deliverable trade (List.mem_of_mem_take (i := n) member)
  rw [Finset.empty_union] at holds
  refine ⟨ledger, booked, holds.net, ?_⟩
  intro trade new once owner
  exact holds.split_or_whole own once (fun held => new (List.mem_toFinset.mp held)) owner

end Run

namespace Sample

/-- Order `"0x01"` closes `carry` long two against one short, over both; any
other order sells one of `carry`'s own. -/
def closing (cloid : Cloid) : Order :=
  { closeOne with
    cloid := cloid
    strategyId := carry
    splitBasis := if cloid = "0x01" then some [("carry", 2), (unattributed, -1)] else none }

/-- Every trade is one sold at a hundred, for a fee. -/
def oneSold (_ : Cloid) (_ : String) : VenueFill := ⟨1, 100, 1, 3 / 100⟩

theorem oneSold_deliverable (trade : TradeKey) :
    Deliverable wholeLot (closing trade.1) (oneSold trade.1 trade.2) where
  positive := by
    show (0 : Decimal) < 1
    norm_num
  flatten basis is := by
    have basisIs : basis = [("carry", 2), (unattributed, -1)] := by
      simp only [closing] at is
      split at is
      · exact (Option.some.inj is).symm
      · cases is
    rw [basisIs]
    have accepted : splitRefusal [("carry", 2), (unattributed, -1)] .sell 1 = none := by
      decide +kernel
    refine ⟨0, rfl, by decide, ?_, accepted, ⟨1, Nat.one_pos, ?_⟩, ⟨0, ?_⟩, ?_⟩
    · intro entry member
      rcases List.mem_cons.mp member with rfl | member
      · exact ⟨2, by norm_num⟩
      · rw [List.mem_singleton.mp member]
        exact ⟨-1, by norm_num⟩
    · show (1 : Decimal) = (1 : ℕ) * (10 : Decimal) ^ (-0 : ℤ)
      norm_num
    · show (1 : Decimal) = (0 : ℕ) * (10 : Decimal) ^ (-0 : ℤ) + 1
      norm_num
    · show (1 : Decimal) ≤ 1
      norm_num

/-- A whole fill, a split one and the whole one again: two sold at a hundred. -/
theorem two_sold_net_cash : ∃ ledger,
    bookTrades wholeLot closing oneSold (Portfolio.openAt wholeLot 0)
        (List.take 3 [("0x02", "1"), ("0x01", "1"), ("0x02", "1")]) = .ok ledger ∧
      ledger.account.cash - ledger.positions.sum Position.costBasis = 200 - 6 / 100 := by
  obtain ⟨ledger, booked, net, _⟩ := net_cash_exact wholeLot closing oneSold 0 (fun _ => rfl)
    [("0x02", "1"), ("0x01", "1"), ("0x02", "1")] (fun trade _ => oneSold_deliverable trade) 3
  refine ⟨ledger, booked, ?_⟩
  rw [net]
  decide +kernel

end Sample

end Tickwright.Engine
