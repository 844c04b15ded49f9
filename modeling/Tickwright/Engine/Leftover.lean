/-
# Engine.Leftover -- when moving a leftover leaves the account's cash alone

Where the venue reads flat and no order can close a strategy's size, the size
moves into the unattributed partition: each strategy closes at its own entry,
and one piece takes the net over at what the strategies paid together.  The
batch is one transaction over distinct partitions, so `Engine.Batch` adds it up.

The strategies always leave flat with their lines unchanged.  The account is
left alone only where the other end takes the size without realizing anything:

* sizes that cancel leave no piece to carry their cost, so the cost goes missing
  unless it cancels too;
* a net that reduces the unattributed partition realizes the difference of the
  two prices into the cash line.

`LeftoverBalances` is that condition, on the ledger before the move, and
`leftover_conserves_iff` that it is exact.
-/
import Tickwright.Engine.Batch

namespace Tickwright.Engine

open Tickwright.Domain Tickwright.Theory Tickwright.Store

set_option autoImplicit false

/-! ## What leaves -/

section Leaving

variable (portfolio : Portfolio) (symbol : Symbol)

/-- The strategy partitions holding size on the symbol. -/
def leaving : List Position :=
  (portfolio.across symbol).filter fun position => position.owner.isSome && !position.isFlat

/-- The size they leave together. -/
def leavingSize : Decimal := ((leaving portfolio symbol).map Position.signedSize).sum

/-- What they paid for it together. -/
def leavingCost : Decimal := ((leaving portfolio symbol).map Position.costBasis).sum

/-- One strategy's own end of the move. -/
def leavingPiece (tsNs : Nanos) (position : Position) : Piece :=
  leftoverPiece position.owner symbol (-position.signedSize) position.entryPrice tsNs

/-- The unattributed partition's end of the move. -/
def takingPiece (tsNs : Nanos) : Piece :=
  leftoverPiece none symbol (leavingSize portfolio symbol)
    (leavingCost portfolio symbol / leavingSize portfolio symbol) tsNs

theorem leftoverPieces_eq (tsNs : Nanos) : leftoverPieces portfolio symbol tsNs =
    (leaving portfolio symbol).map (leavingPiece symbol tsNs) ++
      if leavingSize portfolio symbol = 0 then [] else [takingPiece portfolio symbol tsNs] := by
  show (if leavingSize portfolio symbol = 0 then
      (leaving portfolio symbol).map (leavingPiece symbol tsNs)
    else (leaving portfolio symbol).map (leavingPiece symbol tsNs) ++
      [takingPiece portfolio symbol tsNs]) = _
  split
  · rw [List.append_nil]
  · rfl

end Leaving

/-- **The account takes the leftover without noticing**: this instant's move is
filed nowhere yet, sizes that cancel cost nothing together, and a net that does
not is taken from flat, on its own side, or at its own price. -/
structure LeftoverBalances (portfolio : Portfolio) (symbol : Symbol) (tsNs : Nanos) : Prop where
  leaves : ∀ position ∈ leaving portfolio symbol,
    EventId.leftover symbol tsNs (Owner.stored position.owner) ∉ position.appliedEventIds
  cancels : leavingSize portfolio symbol = 0 → leavingCost portfolio symbol = 0
  takes : leavingSize portfolio symbol ≠ 0 →
    EventId.leftover symbol tsNs (Owner.stored none) ∉
        (portfolio.partition (none, symbol)).appliedEventIds ∧
      (0 ≤ leavingSize portfolio symbol * (portfolio.partition (none, symbol)).signedSize ∨
        leavingCost portfolio symbol / leavingSize portfolio symbol =
          (portfolio.partition (none, symbol)).entryPrice)

/-- What the move is said to do: every strategy flat with its lines as they were,
and the account's nets, cash and net cash as they were; and a second move, at any
instant, finds nothing to do. -/
structure LeftoverMoved (config : Config) (symbol : Symbol) (before after : Memory) : Prop where
  strategies : ∀ strategyId : StrategyId,
    let held := before.portfolio.partition (some strategyId, symbol)
    let left := after.portfolio.partition (some strategyId, symbol)
    left.signedSize = 0 ∧ left.realizedPnl = held.realizedPnl ∧ left.fees = held.fees ∧
      left.funding = held.funding
  net : ∀ other, after.portfolio.accountNet other = before.portfolio.accountNet other
  cash : after.portfolio.account.cash = before.portfolio.account.cash
  netCash : after.portfolio.netCash = before.portfolio.netCash
  again : ∀ tsNs, checkpointLeftover config after symbol tsNs = .ok []

/-! ## The pieces of the move -/

theorem signed_leftoverPiece (owner : Owner) (symbol : Symbol) (size price : Decimal)
    (tsNs : Nanos) : Piece.signed (leftoverPiece owner symbol size price tsNs) = size := by
  unfold Piece.signed leftoverPiece
  by_cases long : 0 < size
  · simp only [if_pos long, Side.sign, one_mul, abs_of_pos long]
  · simp only [if_neg long, Side.sign, abs_of_nonpos (not_lt.mp long)]
    ring

theorem outlay_leftoverPiece (owner : Owner) (symbol : Symbol) (size price : Decimal)
    (tsNs : Nanos) : Piece.outlay (leftoverPiece owner symbol size price tsNs) = size * price := by
  unfold Piece.outlay
  rw [signed_leftoverPiece]
  exact add_zero _

/-- What a leftover piece does to a line of its partition's gain: it realizes
where its size reduces, and pays no fee. -/
theorem gain_leftoverPiece (position : Position) (owner : Owner) (symbol : Symbol)
    {size : Decimal} (some_ : size ≠ 0) (price : Decimal) (tsNs : Nanos) :
    (position.booked (leftoverPiece owner symbol size price tsNs).1
        (leftoverPiece owner symbol size price tsNs).2).1.gain - position.gain = 0 ↔
      0 ≤ size * position.signedSize ∨ price = position.entryPrice := by
  have realized := Position.booked_realizedPnl position
    (leftoverPiece owner symbol size price tsNs).1 (leftoverPiece owner symbol size price tsNs).2
  have signed := signed_leftoverPiece owner symbol size price tsNs
  unfold Piece.signed at signed
  rw [signed] at realized
  have fees : (position.booked (leftoverPiece owner symbol size price tsNs).1
      (leftoverPiece owner symbol size price tsNs).2).1.fees = position.fees := by
    rw [Position.booked_fees]
    exact add_zero _
  rw [← Position.book_realized_iff position some_ price]
  unfold Position.gain
  rw [realized, fees]
  show (position.book size price).1.realizedPnl - _ - _ = 0 ↔ _
  constructor
  · intro zero
    linarith
  · intro same
    rw [same]
    ring

section Move

variable {config : Config} {portfolio after : Portfolio} {symbol : Symbol} {tsNs : Nanos}

theorem mem_leaving {position : Position} (member : position ∈ leaving portfolio symbol) :
    position ∈ portfolio.positions.values ∧ position.symbol = symbol ∧
      position.owner.isSome = true ∧ position.signedSize ≠ 0 := by
  obtain ⟨across, held⟩ := List.mem_filter.mp member
  obtain ⟨value, on⟩ := List.mem_filter.mp across
  obtain ⟨owned, sized⟩ := (Bool.and_eq_true _ _).mp held
  refine ⟨value, of_decide_eq_true on, owned, ?_⟩
  simpa [Position.isFlat] using sized

/-- A partition that leaves is the one filed under its piece's key. -/
theorem leaving_partition (filed : Filed portfolio.positions) {position : Position}
    (member : position ∈ leaving portfolio symbol) :
    (leavingPiece symbol tsNs position).key = keyOf position ∧
      portfolio.partition (keyOf position) = position := by
  obtain ⟨value, on, _, _⟩ := mem_leaving member
  constructor
  · show (position.owner, symbol) = (position.owner, position.symbol)
    rw [on]
  · unfold Portfolio.partition
    rw [filed.get_of_mem value, Option.getD_some]

theorem leaving_keys (filed : Filed portfolio.positions) :
    ((leaving portfolio symbol).map fun position => (leavingPiece symbol tsNs position).key).Nodup := by
  have same : ((leaving portfolio symbol).map fun position =>
      (leavingPiece symbol tsNs position).key) = (leaving portfolio symbol).map keyOf := by
    apply List.map_congr_left
    intro position member
    exact (leaving_partition filed member).1
  rw [same]
  exact filed.keys_nodup.sublist
    ((List.filter_sublist.trans List.filter_sublist).map _)

/-- No two pieces of the move are for one partition. -/
theorem leftover_distinct (filed : Filed portfolio.positions) :
    ((leftoverPieces portfolio symbol tsNs).map Piece.key).Nodup := by
  rw [leftoverPieces_eq, List.map_append, List.map_map]
  have leave := @leaving_keys portfolio symbol tsNs filed
  split
  · rw [List.map_nil, List.append_nil]
    exact leave
  · rw [List.map_singleton, List.nodup_append]
    refine ⟨leave, List.nodup_singleton _, ?_⟩
    intro k held other taken same
    obtain ⟨position, member, rfl⟩ := List.mem_map.mp held
    rw [List.mem_singleton.mp taken] at same
    have owner : position.owner = none := congrArg Prod.fst same
    have owned := (mem_leaving member).2.2.1
    rw [owner] at owned
    cases owned

theorem leftover_positive : ∀ piece ∈ leftoverPieces portfolio symbol tsNs,
    0 < piece.1.quantity := by
  rw [leftoverPieces_eq]
  intro piece member
  rcases List.mem_append.mp member with left | taken
  · obtain ⟨position, held, rfl⟩ := List.mem_map.mp left
    exact abs_pos.mpr (neg_ne_zero.mpr (mem_leaving held).2.2.2)
  · split at taken
    · cases taken
    · rename_i some_
      rw [List.mem_singleton.mp taken]
      exact abs_pos.mpr some_

/-- **A move always goes through**, and leaves the read-model its batch leaves. -/
theorem leftover_books {process : Process} (filed : Filed process.memory.portfolio.positions)
    (symbol : Symbol) (tsNs : Nanos) :
    ∃ effects, checkpointLeftover config process.memory symbol tsNs = .ok effects ∧
      bookPieces config process.memory.portfolio
        (leftoverPieces process.memory.portfolio symbol tsNs) =
        .ok (process.play effects).memory.portfolio := by
  unfold checkpointLeftover
  cases are : leftoverPieces process.memory.portfolio symbol tsNs with
  | nil => exact ⟨[], rfl, rfl⟩
  | cons first rest =>
      obtain ⟨folded, changes, folds⟩ : ∃ folded changes,
          process.memory.portfolio.applyFills config (first :: rest) = .ok (folded, changes) := by
        refine applyFills_ok filed ?_
        rw [← are]
        exact leftover_positive
      simp only
      unfold commitFolds bookPieces
      simp only [folds]
      exact ⟨_, rfl, rfl⟩

theorem seen_leaving (filed : Filed portfolio.positions) {position : Position}
    (member : position ∈ leaving portfolio symbol) :
    Seen portfolio (leavingPiece symbol tsNs position) ↔
      EventId.leftover symbol tsNs (Owner.stored position.owner) ∈ position.appliedEventIds := by
  obtain ⟨key, record⟩ := @leaving_partition portfolio symbol tsNs filed position member
  unfold Seen
  rw [key, record]
  rfl

/-! ## What the strategies are left with -/

/-- What the move leaves of a partition that leaves: nothing of its size and its
lines as they were, or, its id being filed, the partition as it was. -/
theorem left_of_leaving (filed : Filed portfolio.positions)
    (booked : bookPieces config portfolio (leftoverPieces portfolio symbol tsNs) = .ok after)
    {position : Position} (member : position ∈ leaving portfolio symbol) :
    (EventId.leftover symbol tsNs (Owner.stored position.owner) ∈ position.appliedEventIds ∧
      after.partition (keyOf position) = position) ∨
    (EventId.leftover symbol tsNs (Owner.stored position.owner) ∉ position.appliedEventIds ∧
      (after.partition (keyOf position)).signedSize = 0 ∧
      (after.partition (keyOf position)).realizedPnl = position.realizedPnl ∧
      (after.partition (keyOf position)).fees = position.fees ∧
      (after.partition (keyOf position)).funding = position.funding) := by
  obtain ⟨key, record⟩ := @leaving_partition portfolio symbol tsNs filed position member
  have piece : leavingPiece symbol tsNs position ∈ leftoverPieces portfolio symbol tsNs := by
    rw [leftoverPieces_eq]
    exact List.mem_append_left _ (List.mem_map_of_mem member)
  obtain ⟨at_, _⟩ := bookPieces_partition filed (leftover_distinct filed) booked
  have lands := at_ _ piece
  rw [seen_leaving filed member, key, record] at lands
  rcases lands with seen | ⟨fresh, bucket, moved⟩
  · exact Or.inl seen
  · have signed := signed_leftoverPiece position.owner symbol (-position.signedSize)
      position.entryPrice tsNs
    unfold Piece.signed at signed
    refine Or.inr ⟨fresh, ?_, ?_, ?_, ?_⟩
    · rw [moved]
      show (position.booked _ _).1.signedSize = 0
      rw [Position.booked_signedSize]
      unfold leavingPiece
      rw [signed, add_neg_cancel]
    · rw [moved]
      show (position.booked _ _).1.realizedPnl = _
      rw [Position.booked_realizedPnl]
      unfold leavingPiece
      rw [signed]
      exact (position.book_realized_iff (neg_ne_zero.mpr (mem_leaving member).2.2.2) _).mpr
        (Or.inr rfl)
    · rw [moved]
      show (position.booked _ _).1.fees = _
      rw [Position.booked_fees]
      exact add_zero _
    · rw [moved]
      exact Position.booked_funding _ _ _

/-- A strategy's partition that does not leave is flat, and untouched. -/
theorem left_of_flat (filed : Filed portfolio.positions)
    (booked : bookPieces config portfolio (leftoverPieces portfolio symbol tsNs) = .ok after)
    {strategyId : StrategyId}
    (stays : ∀ position ∈ leaving portfolio symbol, keyOf position ≠ (some strategyId, symbol)) :
    after.partition (some strategyId, symbol) = portfolio.partition (some strategyId, symbol) ∧
      (portfolio.partition (some strategyId, symbol)).signedSize = 0 := by
  constructor
  · obtain ⟨_, off⟩ := bookPieces_partition filed (leftover_distinct filed) booked
    apply off
    rw [leftoverPieces_eq]
    intro named
    obtain ⟨piece, member, keyed⟩ := List.mem_map.mp named
    rcases List.mem_append.mp member with left | taken
    · obtain ⟨position, held, rfl⟩ := List.mem_map.mp left
      rw [(leaving_partition filed held).1] at keyed
      exact stays position held keyed
    · split at taken
      · cases taken
      · rw [List.mem_singleton.mp taken] at keyed
        have owner : (none : Owner) = some strategyId := congrArg Prod.fst keyed
        cases owner
  · by_contra sized
    cases there : portfolio.positions.get (some strategyId, symbol) with
    | none =>
        unfold Portfolio.partition at sized
        rw [there] at sized
        exact sized rfl
    | some position =>
        have record : portfolio.partition (some strategyId, symbol) = position := by
          unfold Portfolio.partition
          rw [there, Option.getD_some]
        rw [record] at sized
        have key := (filed _ _ there).1
        refine stays position ?_ key
        have owner : position.owner = some strategyId := congrArg Prod.fst key
        have on : position.symbol = symbol := congrArg Prod.snd key
        unfold leaving Portfolio.across
        rw [List.mem_filter, List.mem_filter]
        refine ⟨⟨(Dict.mem_values _ _).mpr ⟨_, there⟩, decide_eq_true on⟩, ?_⟩
        rw [owner]
        simpa [Position.isFlat] using sized

/-! ## What the account is left with -/

theorem leaving_signed (portfolio : Portfolio) (symbol : Symbol) (tsNs : Nanos) :
    (((leaving portfolio symbol).map (leavingPiece symbol tsNs)).map Piece.signed).sum =
      -leavingSize portfolio symbol := by
  unfold leavingSize
  induction leaving portfolio symbol with
  | nil => exact neg_zero.symm
  | cons position rest ih =>
      simp only [List.map_cons, List.sum_cons, ih]
      unfold leavingPiece
      rw [signed_leftoverPiece]
      ring

theorem leaving_outlay (portfolio : Portfolio) (symbol : Symbol) (tsNs : Nanos) :
    (((leaving portfolio symbol).map (leavingPiece symbol tsNs)).map Piece.outlay).sum =
      -leavingCost portfolio symbol := by
  unfold leavingCost
  induction leaving portfolio symbol with
  | nil => exact neg_zero.symm
  | cons position rest ih =>
      simp only [List.map_cons, List.sum_cons, ih]
      unfold leavingPiece Position.costBasis
      rw [outlay_leftoverPiece]
      ring

/-- The pieces that book, once every strategy's does. -/
theorem fresh_leftover (filed : Filed portfolio.positions)
    (leaves : ∀ position ∈ leaving portfolio symbol,
      EventId.leftover symbol tsNs (Owner.stored position.owner) ∉ position.appliedEventIds) :
    freshOf portfolio (leftoverPieces portfolio symbol tsNs) =
      (leaving portfolio symbol).map (leavingPiece symbol tsNs) ++
        if leavingSize portfolio symbol = 0 ∨ Seen portfolio (takingPiece portfolio symbol tsNs)
        then [] else [takingPiece portfolio symbol tsNs] := by
  unfold freshOf
  rw [leftoverPieces_eq, List.filter_append]
  congr 1
  · rw [List.filter_eq_self]
    intro piece member
    obtain ⟨position, held, rfl⟩ := List.mem_map.mp member
    rw [decide_eq_true_iff, seen_leaving filed held]
    exact leaves position held
  · by_cases cancels : leavingSize portfolio symbol = 0
    · rw [if_pos cancels, if_pos (Or.inl cancels)]
      rfl
    · rw [if_neg cancels]
      by_cases seen : Seen portfolio (takingPiece portfolio symbol tsNs)
      · rw [if_pos (Or.inr seen), List.filter_cons_of_neg (by simpa using seen)]
        rfl
      · rw [if_neg (by simp [cancels, seen]), List.filter_cons_of_pos (by simpa using seen)]
        rfl

/-- **The cash line moves by what the unattributed partition realizes.** -/
theorem leftover_cash (filed : Filed portfolio.positions)
    (booked : bookPieces config portfolio (leftoverPieces portfolio symbol tsNs) = .ok after) :
    after.account.cash = portfolio.account.cash +
      if leavingSize portfolio symbol = 0 ∨ Seen portfolio (takingPiece portfolio symbol tsNs)
      then 0
      else ((portfolio.partition (none, symbol)).booked (takingPiece portfolio symbol tsNs).1
        (takingPiece portfolio symbol tsNs).2).1.gain -
          (portfolio.partition (none, symbol)).gain := by
  rw [bookPieces_gains filed (leftover_distinct filed) booked, leftoverPieces_eq, List.map_append,
    List.sum_append, List.map_map]
  have none_ : ((leaving portfolio symbol).map
      ((fun piece : Piece => if Seen portfolio piece then 0
        else ((portfolio.partition piece.key).booked piece.1 piece.2).1.gain -
          (portfolio.partition piece.key).gain) ∘ leavingPiece symbol tsNs)).sum = 0 := by
    apply List.sum_eq_zero
    intro moved member
    obtain ⟨position, held, rfl⟩ := List.mem_map.mp member
    obtain ⟨key, record⟩ := @leaving_partition portfolio symbol tsNs filed position held
    simp only [Function.comp_apply]
    split
    · rfl
    · rw [key, record]
      exact (gain_leftoverPiece position position.owner symbol
        (neg_ne_zero.mpr (mem_leaving held).2.2.2) position.entryPrice tsNs).mpr (Or.inr rfl)
  rw [none_, zero_add]
  congr 1
  by_cases cancels : leavingSize portfolio symbol = 0
  · rw [if_pos cancels, if_pos (Or.inl cancels)]
    rfl
  · rw [if_neg cancels, List.map_singleton, List.sum_singleton]
    by_cases seen : Seen portfolio (takingPiece portfolio symbol tsNs)
    · rw [if_pos seen, if_pos (Or.inr seen)]
    · rw [if_neg seen, if_neg (by simp [cancels, seen])]
      rfl

theorem seen_taking (portfolio : Portfolio) (symbol : Symbol) (tsNs : Nanos) :
    Seen portfolio (takingPiece portfolio symbol tsNs) ↔
      EventId.leftover symbol tsNs (Owner.stored none) ∈
        (portfolio.partition (none, symbol)).appliedEventIds := Iff.rfl

/-- Pieces on one symbol move that symbol's net by their sum, and no other's. -/
theorem sum_onSymbol {pieces : List Piece} (on : ∀ piece ∈ pieces, piece.1.symbol = symbol)
    (other : Symbol) :
    (pieces.map fun piece => if piece.1.symbol = other then piece.signed else 0).sum =
      if symbol = other then (pieces.map Piece.signed).sum else 0 := by
  have same : (pieces.map fun piece => if piece.1.symbol = other then piece.signed else 0) =
      pieces.map fun piece => if symbol = other then piece.signed else 0 := by
    apply List.map_congr_left
    intro piece member
    rw [on piece member]
  rw [same]
  split
  · rfl
  · exact List.sum_map_zero

theorem leftover_onSymbol (portfolio : Portfolio) (symbol : Symbol) (tsNs : Nanos) :
    ∀ piece ∈ leftoverPieces portfolio symbol tsNs, piece.1.symbol = symbol := by
  rw [leftoverPieces_eq]
  intro piece member
  rcases List.mem_append.mp member with left | taken
  · obtain ⟨_, _, rfl⟩ := List.mem_map.mp left
    rfl
  · split at taken
    · cases taken
    · rw [List.mem_singleton.mp taken]
      rfl

/-- The move's effect on the symbol's net, once every strategy's piece books. -/
theorem leftover_net (filed : Filed portfolio.positions)
    (booked : bookPieces config portfolio (leftoverPieces portfolio symbol tsNs) = .ok after)
    (leaves : ∀ position ∈ leaving portfolio symbol,
      EventId.leftover symbol tsNs (Owner.stored position.owner) ∉ position.appliedEventIds)
    (other : Symbol) :
    after.accountNet other = portfolio.accountNet other +
      if symbol = other ∧ leavingSize portfolio symbol ≠ 0 ∧
        Seen portfolio (takingPiece portfolio symbol tsNs)
      then -leavingSize portfolio symbol else 0 := by
  have on : ∀ piece ∈ freshOf portfolio (leftoverPieces portfolio symbol tsNs),
      piece.1.symbol = symbol :=
    fun piece member => leftover_onSymbol portfolio symbol tsNs piece (List.mem_filter.mp member).1
  rw [bookPieces_net filed (leftover_distinct filed) booked, sum_onSymbol on,
    fresh_leftover filed leaves, List.map_append, List.sum_append, leaving_signed]
  congr 1
  by_cases here : symbol = other
  · rw [if_pos here]
    by_cases cancels : leavingSize portfolio symbol = 0
    · rw [if_pos (Or.inl cancels), if_neg (fun stays => stays.2.1 cancels), cancels, neg_zero,
        zero_add]
      rfl
    · by_cases seen : Seen portfolio (takingPiece portfolio symbol tsNs)
      · rw [if_pos (Or.inr seen), if_pos ⟨here, cancels, seen⟩]
        exact add_zero _
      · rw [if_neg (by simp [cancels, seen]), if_neg (fun stays => seen stays.2.2),
          List.map_singleton, List.sum_singleton]
        unfold takingPiece
        rw [signed_leftoverPiece, neg_add_cancel]
  · rw [if_neg here, if_neg (fun stays => here stays.1)]

/-- The move's effect on net cash, once every piece books. -/
theorem leftover_netCash (filed : Filed portfolio.positions)
    (booked : bookPieces config portfolio (leftoverPieces portfolio symbol tsNs) = .ok after)
    (leaves : ∀ position ∈ leaving portfolio symbol,
      EventId.leftover symbol tsNs (Owner.stored position.owner) ∉ position.appliedEventIds)
    (takes : leavingSize portfolio symbol ≠ 0 →
      ¬ Seen portfolio (takingPiece portfolio symbol tsNs)) :
    after.netCash = portfolio.netCash +
      if leavingSize portfolio symbol = 0 then leavingCost portfolio symbol else 0 := by
  rw [bookPieces_netCash filed (leftover_distinct filed) booked, fresh_leftover filed leaves,
    List.map_append, List.sum_append, leaving_outlay]
  by_cases cancels : leavingSize portfolio symbol = 0
  · rw [if_pos (Or.inl cancels), if_pos cancels, List.map_nil, List.sum_nil]
    ring
  · rw [if_neg (by simp [cancels, takes cancels]), if_neg cancels, List.map_singleton,
      List.sum_singleton]
    unfold takingPiece
    rw [outlay_leftoverPiece, mul_div_cancel₀ _ cancels]
    ring

/-- With every strategy flat there is nothing to move. -/
theorem leftover_again {memory : Memory} (filed : Filed memory.portfolio.positions)
    (flat : ∀ strategyId : StrategyId,
      (memory.portfolio.partition (some strategyId, symbol)).signedSize = 0) (tsNs : Nanos) :
    checkpointLeftover config memory symbol tsNs = .ok [] := by
  have none_ : leaving memory.portfolio symbol = [] := by
    rw [List.eq_nil_iff_forall_not_mem]
    intro position member
    obtain ⟨_, on, owned, sized⟩ := mem_leaving member
    obtain ⟨strategyId, owner⟩ := Option.isSome_iff_exists.mp owned
    have key : keyOf position = (some strategyId, symbol) := by
      unfold keyOf
      rw [owner, on]
    have record := (@leaving_partition _ symbol tsNs filed position member).2
    apply sized
    rw [← record, key]
    exact flat strategyId
  have pieces : leftoverPieces memory.portfolio symbol tsNs = [] := by
    rw [leftoverPieces_eq, none_, if_pos (by unfold leavingSize; rw [none_]; rfl)]
    rfl
  unfold checkpointLeftover
  rw [pieces]

/-! ## The condition is exact -/

/-- **The leftover move conserves the account exactly where it balances.**  At
every ledger and symbol the move goes through, and it leaves each strategy flat
with its lines as they were, and the account's nets, cash and net cash as they
were, if and only if the ledger before it balances the move. -/
theorem leftover_conserves_iff {process : Process}
    (filed : Filed process.memory.portfolio.positions) (config : Config) (symbol : Symbol)
    (tsNs : Nanos) :
    ∃ effects, checkpointLeftover config process.memory symbol tsNs = .ok effects ∧
      (LeftoverMoved config symbol process.memory (process.play effects).memory ↔
        LeftoverBalances process.memory.portfolio symbol tsNs) := by
  obtain ⟨effects, moves, booked⟩ : ∃ effects,
      checkpointLeftover config process.memory symbol tsNs = .ok effects ∧
        bookPieces config process.memory.portfolio
          (leftoverPieces process.memory.portfolio symbol tsNs) =
            .ok (process.play effects).memory.portfolio := leftover_books filed symbol tsNs
  refine ⟨effects, moves, ?_⟩
  generalize (process.play effects).memory = after at booked ⊢
  generalize process.memory = memory at booked filed ⊢
  have cash := leftover_cash filed booked
  have taking (some_ : leavingSize memory.portfolio symbol ≠ 0) :
      ((memory.portfolio.partition (none, symbol)).booked
          (takingPiece memory.portfolio symbol tsNs).1
          (takingPiece memory.portfolio symbol tsNs).2).1.gain -
        (memory.portfolio.partition (none, symbol)).gain = 0 ↔ _ :=
    gain_leftoverPiece (memory.portfolio.partition (none, symbol)) none symbol some_ _ tsNs
  constructor
  · intro moved
    have leaves : ∀ position ∈ leaving memory.portfolio symbol,
        EventId.leftover symbol tsNs (Owner.stored position.owner) ∉ position.appliedEventIds := by
      intro position member seen
      obtain ⟨_, on, owned, sized⟩ := mem_leaving member
      obtain ⟨strategyId, owner⟩ := Option.isSome_iff_exists.mp owned
      have key : keyOf position = (some strategyId, symbol) := by
        unfold keyOf
        rw [owner, on]
      rcases left_of_leaving filed booked member with ⟨_, same⟩ | ⟨fresh, _⟩
      · rw [key] at same
        have flat := (moved.strategies strategyId).1
        rw [same] at flat
        exact sized flat
      · exact fresh seen
    have takes : leavingSize memory.portfolio symbol ≠ 0 →
        ¬ Seen memory.portfolio (takingPiece memory.portfolio symbol tsNs) := by
      intro some_ seen
      have net := leftover_net filed booked leaves symbol
      rw [if_pos ⟨rfl, some_, seen⟩, moved.net symbol] at net
      apply some_
      linarith
    refine ⟨leaves, ?_, fun some_ => ⟨(seen_taking _ _ _).not.mp (takes some_), ?_⟩⟩
    · intro cancels
      have netCash := leftover_netCash filed booked leaves takes
      rw [if_pos cancels, moved.netCash] at netCash
      linarith
    · rw [if_neg (by simp [some_, takes some_]), moved.cash] at cash
      exact (taking some_).mp (by linarith)
  · intro balances
    have takes : leavingSize memory.portfolio symbol ≠ 0 →
        ¬ Seen memory.portfolio (takingPiece memory.portfolio symbol tsNs) :=
      fun some_ => (seen_taking _ _ _).not.mpr (balances.takes some_).1
    have strategies : ∀ strategyId : StrategyId,
        let held := memory.portfolio.partition (some strategyId, symbol)
        let left := after.portfolio.partition (some strategyId, symbol)
        left.signedSize = 0 ∧ left.realizedPnl = held.realizedPnl ∧ left.fees = held.fees ∧
          left.funding = held.funding := by
      intro strategyId held left
      by_cases leaves : ∃ position ∈ leaving memory.portfolio symbol,
          keyOf position = (some strategyId, symbol)
      · obtain ⟨position, member, key⟩ := leaves
        have record := (@leaving_partition _ symbol tsNs filed position member).2
        rcases left_of_leaving filed booked member with ⟨seen, _⟩ | ⟨_, flat⟩
        · exact absurd seen (balances.leaves position member)
        · rw [key] at flat record
          rw [← record] at flat
          exact flat
      · obtain ⟨same, flat⟩ := left_of_flat filed booked (fun position member key =>
          leaves ⟨position, member, key⟩)
        show left.signedSize = 0 ∧ _
        rw [show left = held from same]
        exact ⟨flat, rfl, rfl, rfl⟩
    obtain ⟨_, _, filedAfter, _⟩ := bookPieces_lands filed (leftover_distinct filed) booked
    refine ⟨strategies, ?_, ?_, ?_, leftover_again filedAfter fun strategyId =>
      (strategies strategyId).1⟩
    · intro other
      rw [leftover_net filed booked balances.leaves other,
        if_neg (fun stays => takes stays.2.1 stays.2.2), add_zero]
    · rw [cash]
      split
      · exact add_zero _
      · rename_i some_
        have size : leavingSize memory.portfolio symbol ≠ 0 := fun none_ => some_ (Or.inl none_)
        rw [(taking size).mpr (balances.takes size).2, add_zero]
    · rw [leftover_netCash filed booked balances.leaves takes]
      split
      · rename_i cancels
        rw [balances.cancels cancels, add_zero]
      · exact add_zero _

end Move

namespace Sample

def leaver : StrategyId := ⟨"leaver", by decide⟩

/-- `leaver` long one at a hundred, the unattributed partition at `size`. -/
def leftoverProcess (size entry : Decimal) : Process where
  memory :=
    { cache := {}
      portfolio :=
        { account := { accountId := "paper", genesisCollateral := 0, genesisTsNs := 0, cash := 0 }
          opened := true
          positions := (Dict.empty.set (some leaver, "BTC")
              { owner := some leaver, symbol := "BTC", signedSize := 1, entryPrice := 100 }).set
            (none, "BTC")
            { owner := none, symbol := "BTC", signedSize := size, entryPrice := entry } } }
  store := Store.fresh

/-- The cash line a move at instant one leaves. -/
def cashLeft (process : Process) : Option Decimal :=
  match checkpointLeftover { spec := { accountId := "paper" } } process.memory "BTC" 1 with
  | .error _ => none
  | .ok effects => some (process.play effects).memory.portfolio.account.cash

theorem leftoverProcess_filed {size entry : Decimal} (sized : size = 0 → entry = 0) :
    Filed (leftoverProcess size entry).memory.portfolio.positions := by
  have long : Position.Settled
      { owner := some leaver, symbol := "BTC", signedSize := 1, entryPrice := 100 } :=
    fun flat => absurd flat one_ne_zero
  have other : Position.Settled
      { owner := none, symbol := "BTC", signedSize := size, entryPrice := entry } := sized
  exact (Filed.empty.set long).set other

/-- Into a flat partition the size moves at its own price. -/
theorem flat_takes_leftover : ∃ effects,
    checkpointLeftover { spec := { accountId := "paper" } } (leftoverProcess 0 0).memory "BTC" 1 =
        .ok effects ∧
      LeftoverMoved { spec := { accountId := "paper" } } "BTC" (leftoverProcess 0 0).memory
        ((leftoverProcess 0 0).play effects).memory := by
  obtain ⟨effects, moves, conserves⟩ := leftover_conserves_iff
    (leftoverProcess_filed fun _ => rfl) { spec := { accountId := "paper" } } "BTC" 1
  refine ⟨effects, moves, conserves.mpr ⟨?_, ?_, ?_⟩⟩
  · have fresh : ∀ position ∈ leaving (leftoverProcess 0 0).memory.portfolio "BTC",
        EventId.leftover "BTC" 1 (Owner.stored position.owner) ∉ position.appliedEventIds := by
      decide +kernel
    exact fresh
  · have some_ : leavingSize (leftoverProcess 0 0).memory.portfolio "BTC" = 1 := by decide +kernel
    intro none_
    rw [some_] at none_
    exact absurd none_ one_ne_zero
  · intro _
    exact ⟨by decide +kernel, Or.inl (by decide +kernel)⟩

/-- **A short unattributed partition moves the cash line.**  It is short one at
ninety where `leaver` leaves one at a hundred: the account loses ten. -/
theorem short_leftover_moves_cash : ∃ effects,
    checkpointLeftover { spec := { accountId := "paper" } } (leftoverProcess (-1) 90).memory "BTC"
        1 = .ok effects ∧
      ¬ LeftoverMoved { spec := { accountId := "paper" } } "BTC" (leftoverProcess (-1) 90).memory
        ((leftoverProcess (-1) 90).play effects).memory := by
  have lost : cashLeft (leftoverProcess (-1) 90) = some (-10) := by decide +kernel
  unfold cashLeft at lost
  cases moves : checkpointLeftover { spec := { accountId := "paper" } }
      (leftoverProcess (-1) 90).memory "BTC" 1 with
  | error fault => rw [moves] at lost; cases lost
  | ok effects =>
      rw [moves] at lost
      refine ⟨effects, rfl, fun moved => ?_⟩
      have kept := moved.cash
      rw [Option.some.inj lost] at kept
      exact absurd kept (by decide +kernel)

end Sample

end Tickwright.Engine
