/-
# Engine.Batch -- one batch of fills over distinct partitions, added up

A fill is folded into the read-model, made durable and then projected, and a
batch of fills is folded whole before any of it is projected.  Where no two of
its fills reach one partition the batch is simple to add up: each fill does to
its partition what it would have done alone, on the ledger the batch found.

* `applyFills_lands` says that once, with what the batch does to the cash line;
* `Additive f due` names a quantity of a partition that a booked fill moves by
  what is due of it, and `bookPieces_sum` adds any such quantity over the ledger;
* cash less every partition's gain is left by every batch (`bookPieces_cash`), so
  what moves the gains moves the cash line the same (`bookPieces_netCash`).
-/
import Tickwright.Engine.InSync
import Tickwright.Engine.Checkpoint

namespace Tickwright.Engine

open Tickwright.Domain Tickwright.Theory Tickwright.Store

set_option autoImplicit false

/-- A fill and its side, as a batch holds them. -/
abbrev Piece := BookableFill × Side

namespace Piece

/-- The partition a piece is for. -/
def key (piece : Piece) : PartitionKey := (piece.1.owner, piece.1.symbol)

/-- What a piece moves its partition's size by. -/
def signed (piece : Piece) : Decimal := piece.2.sign * piece.1.quantity

/-- What a piece costs: its signed notional, and its fee. -/
def outlay (piece : Piece) : Decimal := piece.signed * piece.1.price + piece.1.fee

end Piece

/-- Fold a batch, then project it: the read-model a committed batch leaves. -/
def bookPieces (config : Config) (portfolio : Portfolio) (pieces : List Piece) :
    Except InvariantViolation Portfolio :=
  match portfolio.applyFills config pieces with
  | .error violation => .error violation
  | .ok (folded, changes) => .ok (changes.foldl Portfolio.project folded)

/-- Whether the piece's own partition has filed its id. -/
def Seen (portfolio : Portfolio) (piece : Piece) : Prop :=
  piece.1.eventId ∈ (portfolio.partition piece.key).appliedEventIds

instance (portfolio : Portfolio) (piece : Piece) : Decidable (Seen portfolio piece) := by
  unfold Seen
  infer_instance

/-- The pieces that are not redelivered. -/
def freshOf (portfolio : Portfolio) (pieces : List Piece) : List Piece :=
  pieces.filter fun piece => decide (¬ Seen portfolio piece)

/-- What one piece of a batch did to the partition the batch found. -/
structure Lands (portfolio : Portfolio) (piece : Piece) (change : LedgerChange) : Prop where
  key : change.key = piece.key
  moved : (Seen portfolio piece ∧ change.position = portfolio.partition piece.key) ∨
    (¬ Seen portfolio piece ∧ ∃ bucket, change.position =
      { ((portfolio.partition piece.key).booked piece.1 piece.2).1 with
        isolatedCollateral := bucket })

section Batch

variable {config : Config} {portfolio after : Portfolio} {pieces : List Piece}
  {changes : List LedgerChange}

/-- A fill of a positive quantity is never refused by its own partition. -/
theorem applyFill_ok (filed : Filed portfolio.positions) {piece : Piece}
    (positive : 0 < piece.1.quantity) :
    ∃ middle change, portfolio.applyFill config piece.1 piece.2 = .ok (middle, change) :=
  Portfolio.applyFill_defined (fun k position there => (filed k position there).1) positive

/-- What the first fill of a batch leaves for the rest. -/
theorem applyFill_lands (filed : Filed portfolio.positions) {piece : Piece} {middle : Portfolio}
    {change : LedgerChange}
    (folded : portfolio.applyFill config piece.1 piece.2 = .ok (middle, change)) :
    Lands portfolio piece change ∧ Filed middle.positions ∧
      (change.filed = true → middle.positions.get piece.key = some change.position) ∧
      (∀ k, k ≠ piece.key → middle.partition k = portfolio.partition k) ∧
      middle.account.cash = portfolio.account.cash +
        (change.position.gain - (portfolio.partition piece.key).gain) := by
  obtain ⟨fill, side⟩ := piece
  obtain ⟨keyed, settled⟩ := applyFill_settled filed folded
  obtain ⟨_, _, _, positions, moved⟩ := Portfolio.applyFill_cases folded
  refine ⟨⟨keyed, ?_⟩, ?_, ?_, ?_, ?_⟩
  · rcases moved with ⟨seen, same, _, _⟩ | ⟨fresh, booked, _, _⟩
    · exact Or.inl ⟨seen, same⟩
    · exact Or.inr ⟨fresh, booked⟩
  · rw [positions]
    split
    · rw [← keyed]
      exact filed.set settled
    · exact filed
  · intro there
    rw [positions, if_pos there]
    exact Dict.get_set_self _ _ _
  · intro k ne
    unfold Portfolio.partition
    rw [positions]
    split
    · have other : ((fill.owner, fill.symbol) : PartitionKey) ≠ k := Ne.symm ne
      rw [Dict.get_set_ne _ _ other]
    · rfl
  · rcases moved with ⟨_, same, _, account⟩ | ⟨_, ⟨bucket, booked⟩, _, account⟩
    · rw [account, same]
      show _ = _ + ((portfolio.partition (fill.owner, fill.symbol)).gain -
        (portfolio.partition (fill.owner, fill.symbol)).gain)
      rw [sub_self, add_zero]
    · rw [account, booked]
      simp only [Account.accrueRealized, Account.accrueFee, Position.gain, Piece.key]
      linarith

theorem Lands.congr {start : Portfolio} {piece : Piece} {change : LedgerChange}
    (same : portfolio.partition piece.key = start.partition piece.key)
    (lands : Lands portfolio piece change) : Lands start piece change := by
  refine ⟨lands.key, ?_⟩
  unfold Seen
  rw [← same]
  exact lands.moved

theorem lands_keys (each : List.Forall₂ (Lands portfolio) pieces changes) :
    changes.map LedgerChange.key = pieces.map Piece.key := by
  induction each with
  | nil => rfl
  | cons here _ ih => rw [List.map_cons, List.map_cons, here.key, ih]

theorem lands_of_mem (each : List.Forall₂ (Lands portfolio) pieces changes) {piece : Piece}
    (member : piece ∈ pieces) : ∃ change ∈ changes, Lands portfolio piece change := by
  induction each with
  | nil => cases member
  | cons here _ ih =>
      rcases List.mem_cons.mp member with rfl | later
      · exact ⟨_, List.mem_cons_self, here⟩
      · obtain ⟨change, there, lands⟩ := ih later
        exact ⟨change, List.mem_cons_of_mem _ there, lands⟩

/-- **Each fill of a batch over distinct partitions lands as it would alone**,
and the cash line moves by what their gains moved.  `start` is the ledger the
batch found. -/
theorem applyFills_lands {start : Portfolio} (filed : Filed portfolio.positions)
    (distinct : (pieces.map Piece.key).Nodup)
    (same : ∀ piece ∈ pieces, portfolio.partition piece.key = start.partition piece.key)
    (folded : portfolio.applyFills config pieces = .ok (after, changes)) :
    List.Forall₂ (Lands start) pieces changes ∧
      (∀ change ∈ changes, change.current after = change.position) ∧
      after.account.cash = portfolio.account.cash + (changes.map fun change =>
        change.position.gain - (start.partition change.key).gain).sum := by
  induction pieces generalizing portfolio changes with
  | nil =>
      cases folded
      exact ⟨.nil, nofun, (add_zero _).symm⟩
  | cons piece rest ih =>
      obtain ⟨absent, distinctRest⟩ := List.nodup_cons.mp distinct
      simp only [Portfolio.applyFills] at folded
      cases first : portfolio.applyFill config piece.1 piece.2 with
      | error violation => rw [first] at folded; cases folded
      | ok pair =>
          obtain ⟨middle, change⟩ := pair
          rw [first] at folded
          simp only at folded
          cases second : Portfolio.applyFills config middle rest with
          | error violation => rw [second] at folded; cases folded
          | ok pair =>
              obtain ⟨last, more⟩ := pair
              rw [second] at folded
              cases folded
              obtain ⟨lands, middleFiled, there, off, cash⟩ := applyFill_lands filed first
              have sameRest : ∀ other ∈ rest,
                  middle.partition other.key = start.partition other.key := by
                intro other member
                have ne : other.key ≠ piece.key := by
                  intro is
                  exact absent (is ▸ List.mem_map_of_mem member)
                rw [off _ ne, same other (List.mem_cons_of_mem _ member)]
              obtain ⟨each, currents, cashRest⟩ := ih middleFiled distinctRest sameRest second
              have here := lands.congr (same piece List.mem_cons_self)
              refine ⟨.cons here each, ?_, ?_⟩
              · intro other member
                rcases List.mem_cons.mp member with rfl | later
                · -- No later fill of the batch reaches this partition.
                  unfold LedgerChange.current
                  split
                  · rename_i wasFiled
                    have untouched := (applyFills_folded middleFiled second).off other.key (by
                      rw [lands_keys each, lands.key]
                      exact absent)
                    rw [untouched, lands.key, there wasFiled, Option.getD_some]
                  · rfl
                · exact currents other later
              · rw [cashRest, cash, same piece List.mem_cons_self, List.map_cons, List.sum_cons,
                  lands.key]
                ring

/-- A batch of positive fills is never refused. -/
theorem applyFills_ok (filed : Filed portfolio.positions)
    (positive : ∀ piece ∈ pieces, 0 < piece.1.quantity) :
    ∃ after changes, portfolio.applyFills config pieces = .ok (after, changes) := by
  induction pieces generalizing portfolio with
  | nil => exact ⟨_, _, rfl⟩
  | cons piece rest ih =>
      obtain ⟨middle, change, first⟩ : ∃ middle change,
          portfolio.applyFill config piece.1 piece.2 = .ok (middle, change) :=
        applyFill_ok filed (positive piece List.mem_cons_self)
      obtain ⟨_, middleFiled, _⟩ := applyFill_lands filed first
      obtain ⟨last, more, second⟩ :=
        ih middleFiled fun other member => positive other (List.mem_cons_of_mem _ member)
      refine ⟨last, change :: more, ?_⟩
      obtain ⟨fill, side⟩ := piece
      unfold Portfolio.applyFills
      simp only [first, second]

/-- **What a booked batch leaves at each partition**: the record its own piece
left, or the record that was there. -/
theorem bookPieces_lands (filed : Filed portfolio.positions)
    (distinct : (pieces.map Piece.key).Nodup)
    (booked : bookPieces config portfolio pieces = .ok after) :
    ∃ changes, List.Forall₂ (Lands portfolio) pieces changes ∧ Filed after.positions ∧
      after.positions.Same (portfolio.positions.setAll
        (changes.map fun change => (change.key, change.position))) ∧
      after.account.cash = portfolio.account.cash + (changes.map fun change =>
        change.position.gain - (portfolio.partition change.key).gain).sum := by
  unfold bookPieces at booked
  cases folds : portfolio.applyFills config pieces with
  | error violation => rw [folds] at booked; cases booked
  | ok pair =>
      obtain ⟨folded, changes⟩ := pair
      rw [folds] at booked
      cases booked
      obtain ⟨each, currents, cash⟩ := applyFills_lands filed distinct (fun _ _ => rfl) folds
      have batch := applyFills_folded filed folds
      have rows : (rowsOf folded changes).map (fun position => (keyOf position, position)) =
          changes.map fun change => (change.key, change.position) := by
        unfold rowsOf
        rw [List.map_map]
        apply List.map_congr_left
        intro change member
        simp only [Function.comp_apply, currents change member]
        rfl
      refine ⟨changes, each, ?_, ?_, ?_⟩
      · intro k position there
        rw [batch.moved k] at there
        exact filed.setAll (fun row member => by
          obtain ⟨change, held, rfl⟩ := List.mem_map.mp member
          exact batch.toAwaiting.current_settled held) k position there
      · rw [← rows]
        exact batch.moved
      · rw [project_account]
        exact cash

theorem bookPieces_ok (filed : Filed portfolio.positions)
    (positive : ∀ piece ∈ pieces, 0 < piece.1.quantity) :
    ∃ after, bookPieces config portfolio pieces = .ok after := by
  obtain ⟨folded, changes, folds⟩ : ∃ folded changes,
      portfolio.applyFills config pieces = .ok (folded, changes) := applyFills_ok filed positive
  unfold bookPieces
  rw [folds]
  exact ⟨_, rfl⟩

/-- **What a booked batch leaves under each key**: what its piece lands, or what
was there. -/
theorem bookPieces_partition (filed : Filed portfolio.positions)
    (distinct : (pieces.map Piece.key).Nodup)
    (booked : bookPieces config portfolio pieces = .ok after) :
    (∀ piece ∈ pieces,
      (Seen portfolio piece ∧ after.partition piece.key = portfolio.partition piece.key) ∨
      (¬ Seen portfolio piece ∧ ∃ bucket, after.partition piece.key =
        { ((portfolio.partition piece.key).booked piece.1 piece.2).1 with
          isolatedCollateral := bucket })) ∧
    ∀ k, k ∉ pieces.map Piece.key → after.partition k = portfolio.partition k := by
  obtain ⟨changes, each, _, left, _⟩ := bookPieces_lands filed distinct booked
  have keys : ((changes.map fun change => (change.key, change.position)).map Prod.fst) =
      pieces.map Piece.key := by
    rw [List.map_map]
    exact lands_keys each
  constructor
  · intro piece member
    obtain ⟨change, there, lands⟩ := lands_of_mem each member
    have record : after.partition piece.key = change.position := by
      unfold Portfolio.partition
      rw [left, ← lands.key, Dict.get_setAll_pair (by rw [keys]; exact distinct)
        (List.mem_map_of_mem (f := fun change : LedgerChange => (change.key, change.position)) there),
        Option.getD_some]
    rw [record]
    exact lands.moved
  · intro k absent
    unfold Portfolio.partition
    rw [left, Dict.get_setAll_of_not_mem (by rw [keys]; exact absent)]

/-- **Every id a batch names is filed on its own partition, and nothing else is.** -/
theorem bookPieces_filed (filed : Filed portfolio.positions)
    (distinct : (pieces.map Piece.key).Nodup)
    (booked : bookPieces config portfolio pieces = .ok after) (k : PartitionKey) (id : EventId) :
    id ∈ (after.partition k).appliedEventIds ↔
      id ∈ (portfolio.partition k).appliedEventIds ∨
        ∃ piece ∈ pieces, piece.key = k ∧ piece.1.eventId = id := by
  obtain ⟨at_, off⟩ := bookPieces_partition filed distinct booked
  by_cases named : k ∈ pieces.map Piece.key
  · obtain ⟨piece, member, rfl⟩ := List.mem_map.mp named
    have only : ∀ other ∈ pieces, other.key = piece.key → other = piece :=
      fun other held same => List.inj_on_of_nodup_map distinct held member same
    have mine : (∃ other ∈ pieces, other.key = piece.key ∧ other.1.eventId = id) ↔
        id = piece.1.eventId := by
      constructor
      · rintro ⟨other, held, same, rfl⟩
        rw [only other held same]
      · rintro rfl
        exact ⟨piece, member, rfl, rfl⟩
    rw [mine]
    rcases at_ piece member with ⟨seen, same⟩ | ⟨_, bucket, moved⟩
    · rw [same]
      constructor
      · exact Or.inl
      · rintro (old | rfl)
        · exact old
        · exact seen
    · rw [moved]
      show id ∈ ((portfolio.partition piece.key).booked piece.1 piece.2).1.appliedEventIds ↔ _
      rw [Position.booked_appliedEventIds, Finset.mem_insert]
      exact or_comm
  · rw [off k named]
    constructor
    · exact Or.inl
    · rintro (old | ⟨piece, member, rfl, _⟩)
      · exact old
      · exact absurd (List.mem_map_of_mem member) named

/-- **The cash line moves by what the fresh pieces realize, less their fees.** -/
theorem bookPieces_gains (filed : Filed portfolio.positions)
    (distinct : (pieces.map Piece.key).Nodup)
    (booked : bookPieces config portfolio pieces = .ok after) :
    after.account.cash = portfolio.account.cash + (pieces.map fun piece =>
      if Seen portfolio piece then 0
      else ((portfolio.partition piece.key).booked piece.1 piece.2).1.gain -
        (portfolio.partition piece.key).gain).sum := by
  obtain ⟨changes, each, _, left, cash⟩ := bookPieces_lands filed distinct booked
  rw [cash]
  congr 2
  clear left booked distinct cash
  induction each with
  | nil => rfl
  | cons here _ ih =>
      rw [List.map_cons, List.map_cons, ih, here.key]
      congr 1
      rcases here.moved with ⟨seen, same⟩ | ⟨fresh, bucket, moved⟩
      · rw [if_pos seen, same, sub_self]
      · rw [if_neg fresh, moved]
        rfl

end Batch

/-! ## Quantities a ledger adds up -/

/-- A quantity of a partition that a booked fill moves by what is `due` of it,
whatever the regime. -/
structure Additive (f : Position → Decimal) (due : Piece → Decimal) : Prop where
  blank : ∀ owner symbol, f { owner := owner, symbol := symbol } = 0
  bucket : ∀ position bucket, f { position with isolatedCollateral := bucket } = f position
  booked : ∀ (position : Position) (piece : Piece), piece.1.symbol = position.symbol →
    f (position.booked piece.1 piece.2).1 = f position + due piece

section Adding

variable {config : Config} {portfolio after : Portfolio} {pieces : List Piece}
  {changes : List LedgerChange} {f : Position → Decimal} {due : Piece → Decimal}

theorem gain_blank (owner : Owner) (symbol : Symbol) :
    Position.gain { owner := owner, symbol := symbol } = 0 := sub_self 0

theorem elim_partition (blank : ∀ owner symbol, f { owner := owner, symbol := symbol } = 0)
    (k : PartitionKey) : (portfolio.positions.get k).elim 0 f = f (portfolio.partition k) := by
  unfold Portfolio.partition
  cases portfolio.positions.get k with
  | none => exact (blank _ _).symm
  | some position => rfl

/-- What the changes of a batch add to any quantity of its partitions. -/
theorem sum_changes (blank : ∀ owner symbol, f { owner := owner, symbol := symbol } = 0)
    (each : List.Forall₂ (Lands portfolio) pieces changes)
    (distinct : (pieces.map Piece.key).Nodup)
    (left : after.positions.Same (portfolio.positions.setAll
      (changes.map fun change => (change.key, change.position)))) :
    after.positions.sum f = portfolio.positions.sum f + (changes.map fun change =>
      f change.position - f (portfolio.partition change.key)).sum := by
  have keys : ((changes.map fun change => (change.key, change.position)).map Prod.fst).Nodup := by
    rw [List.map_map]
    show (changes.map LedgerChange.key).Nodup
    rw [lands_keys each]
    exact distinct
  rw [left.sum_eq, Dict.sum_setAll _ _ keys, List.map_map]
  congr 2
  apply List.map_congr_left
  intro change _
  simp only [Function.comp_apply, elim_partition blank]

theorem Lands.moves (additive : Additive f due) (filed : Filed portfolio.positions) {piece : Piece}
    {change : LedgerChange} (lands : Lands portfolio piece change) :
    f change.position - f (portfolio.partition change.key) =
      if Seen portfolio piece then 0 else due piece := by
  have keyed : keyOf (portfolio.partition piece.key) = piece.key :=
    Portfolio.partition_owner fun k position there => (filed k position there).1
  rw [lands.key]
  rcases lands.moved with ⟨seen, same⟩ | ⟨fresh, bucket, booked⟩
  · rw [if_pos seen, same, sub_self]
  · rw [if_neg fresh, booked, additive.bucket, additive.booked _ _ (congrArg Prod.snd keyed).symm]
    ring

theorem sum_fresh (portfolio : Portfolio) (due : Piece → Decimal) (pieces : List Piece) :
    (pieces.map fun piece => if Seen portfolio piece then 0 else due piece).sum =
      ((freshOf portfolio pieces).map due).sum := by
  unfold freshOf
  induction pieces with
  | nil => rfl
  | cons piece rest ih =>
      rw [List.map_cons, List.sum_cons, ih]
      by_cases seen : Seen portfolio piece
      · rw [if_pos seen, List.filter_cons_of_neg (by simpa using seen), zero_add]
      · rw [if_neg seen, List.filter_cons_of_pos (by simpa using seen), List.map_cons,
          List.sum_cons]

/-- **A batch moves an additive quantity of the ledger by what its fresh pieces
are due.** -/
theorem bookPieces_sum (additive : Additive f due) (filed : Filed portfolio.positions)
    (distinct : (pieces.map Piece.key).Nodup)
    (booked : bookPieces config portfolio pieces = .ok after) :
    after.positions.sum f =
      portfolio.positions.sum f + ((freshOf portfolio pieces).map due).sum := by
  obtain ⟨changes, each, _, left, cash⟩ := bookPieces_lands filed distinct booked
  rw [sum_changes additive.blank each distinct left, ← sum_fresh]
  congr 2
  clear left booked distinct cash
  induction each with
  | nil => rfl
  | cons here _ ih => rw [List.map_cons, List.map_cons, here.moves additive filed, ih]

/-- **Cash less every partition's gain is the batch's own invariant.** -/
theorem bookPieces_cash (filed : Filed portfolio.positions)
    (distinct : (pieces.map Piece.key).Nodup)
    (booked : bookPieces config portfolio pieces = .ok after) :
    after.account.cash - after.positions.sum Position.gain =
      portfolio.account.cash - portfolio.positions.sum Position.gain := by
  obtain ⟨changes, each, _, left, cash⟩ := bookPieces_lands filed distinct booked
  rw [sum_changes gain_blank each distinct left, cash]
  ring

end Adding

/-! ## Net cash, net size, fees -/

/-- The account's cash less what the open partitions cost. -/
def Portfolio.netCash (portfolio : Portfolio) : Decimal :=
  portfolio.account.cash - portfolio.positions.sum Position.costBasis

/-- The fees of every partition. -/
def Portfolio.totalFees (portfolio : Portfolio) : Decimal := portfolio.positions.sum Position.fees

theorem accountNet_sum (portfolio : Portfolio) (symbol : Symbol) :
    portfolio.accountNet symbol = portfolio.positions.sum fun position =>
      if position.symbol = symbol then position.signedSize else 0 := by
  unfold Portfolio.accountNet Dict.sum
  induction portfolio.positions.values with
  | nil => rfl
  | cons position rest ih =>
      rw [List.map_cons, List.sum_cons, ← ih]
      by_cases here : position.symbol = symbol
      · rw [List.filter_cons_of_pos (by simpa using here), List.map_cons, List.sum_cons, if_pos here]
      · rw [List.filter_cons_of_neg (by simpa using here), if_neg here, zero_add]

theorem additive_stake : Additive Position.stake fun piece => -piece.outlay where
  blank owner symbol := by
    unfold Position.stake Position.costBasis
    rw [gain_blank, zero_mul, sub_zero]
  bucket _ _ := rfl
  booked position piece _ := by
    rw [Position.booked_stake]
    unfold Piece.outlay Piece.signed
    ring

theorem additive_fees : Additive Position.fees fun piece => piece.1.fee where
  blank _ _ := rfl
  bucket _ _ := rfl
  booked position piece _ := Position.booked_fees position piece.1 piece.2

theorem additive_net (symbol : Symbol) :
    Additive (fun position => if position.symbol = symbol then position.signedSize else 0)
      fun piece => if piece.1.symbol = symbol then piece.signed else 0 where
  blank _ _ := ite_self _
  bucket _ _ := rfl
  booked position piece same := by
    simp only [Position.booked_symbol, Position.booked_signedSize, same]
    split
    · rfl
    · rw [add_zero]

section Totals

variable {config : Config} {portfolio after : Portfolio} {pieces : List Piece}

theorem netCash_stake (portfolio : Portfolio) :
    portfolio.netCash = portfolio.account.cash - portfolio.positions.sum Position.gain +
      portfolio.positions.sum Position.stake := by
  have split : portfolio.positions.sum Position.stake =
      portfolio.positions.sum Position.gain - portfolio.positions.sum Position.costBasis := by
    unfold Dict.sum
    induction portfolio.positions.values with
    | nil => exact (sub_zero 0).symm
    | cons position rest ih =>
        simp only [List.map_cons, List.sum_cons, ih]
        unfold Position.stake
        ring
  unfold Portfolio.netCash
  rw [split]
  ring

/-- **Net cash moves by what the fresh pieces cost**, to whichever partitions
they go. -/
theorem bookPieces_netCash (filed : Filed portfolio.positions)
    (distinct : (pieces.map Piece.key).Nodup)
    (booked : bookPieces config portfolio pieces = .ok after) :
    after.netCash = portfolio.netCash - ((freshOf portfolio pieces).map Piece.outlay).sum := by
  have negated : ((freshOf portfolio pieces).map fun piece => -piece.outlay).sum =
      -((freshOf portfolio pieces).map Piece.outlay).sum := by
    induction freshOf portfolio pieces with
    | nil => rfl
    | cons piece rest ih =>
        simp only [List.map_cons, List.sum_cons, ih]
        ring
  rw [netCash_stake, netCash_stake, bookPieces_cash filed distinct booked,
    bookPieces_sum additive_stake filed distinct booked, negated]
  ring

theorem bookPieces_fees (filed : Filed portfolio.positions)
    (distinct : (pieces.map Piece.key).Nodup)
    (booked : bookPieces config portfolio pieces = .ok after) :
    after.totalFees =
      portfolio.totalFees + ((freshOf portfolio pieces).map fun piece => piece.1.fee).sum :=
  bookPieces_sum additive_fees filed distinct booked

theorem bookPieces_net (filed : Filed portfolio.positions)
    (distinct : (pieces.map Piece.key).Nodup)
    (booked : bookPieces config portfolio pieces = .ok after) (symbol : Symbol) :
    after.accountNet symbol = portfolio.accountNet symbol +
      ((freshOf portfolio pieces).map fun piece =>
        if piece.1.symbol = symbol then piece.signed else 0).sum := by
  rw [accountNet_sum, accountNet_sum]
  exact bookPieces_sum (additive_net symbol) filed distinct booked

theorem applyFills_keys {changes : List LedgerChange} (filed : Filed portfolio.positions)
    (folded : portfolio.applyFills config pieces = .ok (after, changes)) :
    changes.map LedgerChange.key = pieces.map Piece.key := by
  induction pieces generalizing portfolio changes with
  | nil => cases folded; rfl
  | cons piece rest ih =>
      obtain ⟨fill, side⟩ := piece
      simp only [Portfolio.applyFills] at folded
      split at folded
      · cases folded
      · rename_i middle change first
        split at folded
        · cases folded
        · rename_i last later second
          cases folded
          have single : portfolio.applyFill config (fill, side).1 (fill, side).2 =
              .ok (middle, change) := first
          obtain ⟨lands, middleFiled, _⟩ := applyFill_lands filed single
          rw [List.map_cons, List.map_cons, ih middleFiled second, lands.key]

/-- A batch on other symbols moves nothing of this one's net. -/
theorem bookPieces_net_elsewhere {symbol : Symbol}
    (filed : Filed portfolio.positions) (elsewhere : ∀ piece ∈ pieces, piece.1.symbol ≠ symbol)
    (booked : bookPieces config portfolio pieces = .ok after) :
    after.accountNet symbol = portfolio.accountNet symbol := by
  unfold bookPieces at booked
  split at booked
  · cases booked
  · rename_i folded changes applied
    cases booked
    have fold := applyFills_folded filed applied
    have rows : ∀ position ∈ rowsOf folded changes, position.symbol ≠ symbol := by
      intro position member
      obtain ⟨change, there, rfl⟩ := List.mem_map.mp member
      have keys := applyFills_keys filed applied
      have key : change.key ∈ pieces.map Piece.key := keys ▸ List.mem_map_of_mem there
      obtain ⟨piece, listed, same⟩ := List.mem_map.mp key
      have here : keyOf (change.current folded) = change.key := fold.current_key change
      have named : (change.current folded).symbol = piece.1.symbol :=
        congrArg Prod.snd (here.trans same.symm)
      rw [named]
      exact elsewhere piece listed
    rw [accountNet_sum, accountNet_sum, fold.moved.sum_eq]
    apply Dict.sum_setAll_off
    · intro pair member
      obtain ⟨position, listed, rfl⟩ := List.mem_map.mp member
      exact if_neg (rows position listed)
    · intro pair member held there
      obtain ⟨position, listed, rfl⟩ := List.mem_map.mp member
      have keyed := (filed _ held there).1
      have named : held.symbol = position.symbol := congrArg Prod.snd keyed
      rw [named]
      exact if_neg (rows position listed)

end Totals

end Tickwright.Engine
