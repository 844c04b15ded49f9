/-
# Engine.SplitExact -- what the flatten split of one order adds up to

The split hands whole lots out on two sides: the partitions on the net's own side
(`lotsWith`) and those against it (`lotsAgainst`).  `movedLots` is what one
partition has moved after `filled` lots of the order, read off the two hand-outs
(`totalMoves_eq`).  Over a positive lot net:

* what the order has filled is what the two sides moved, with their signs
  (`sum_movedLots`);
* a partition never moves back (`movedLots_mono`), never passes its own whole
  lots as long as the fill stays within the lot net (`movedLots_le`), and is
  through with them when the fill reaches it (`movedLots_full`);
* one lot past the lot net some partition is flipped (`movedLots_past`).

`Aligned` sizes, the ones a lot grid allows, make the lot net the account net.
-/
import Tickwright.Engine.FlattenSplit
import Tickwright.Theory.Apportion

namespace Tickwright.Engine

open Tickwright.Domain Tickwright.Theory

set_option autoImplicit false

/-! ## The hand-out of one side -/

theorem foldl_max {κ : Type*} [LinearOrder κ] (key : String → κ) (rest : List String)
    (first : String) :
    let best := rest.foldl
      (fun best other => if key best < key other then other else best) first
    (best = first ∨ best ∈ rest) ∧ key first ≤ key best ∧ ∀ owner ∈ rest, key owner ≤ key best := by
  induction rest generalizing first with
  | nil => exact ⟨Or.inl rfl, le_refl _, fun _ member => by cases member⟩
  | cons other rest ih =>
      intro best
      obtain ⟨named, least, most⟩ := ih (if key first < key other then other else first)
      refine ⟨?_, ?_, ?_⟩
      · show (best = first ∨ best ∈ other :: rest)
        rcases named with is | member
        · by_cases larger : key first < key other
          · rw [if_pos larger] at is
            refine Or.inr (List.mem_cons.mpr (Or.inl ?_))
            show List.foldl _ (if key first < key other then other else first) rest = other
            rw [if_pos larger, is]
          · rw [if_neg larger] at is
            refine Or.inl ?_
            show List.foldl _ (if key first < key other then other else first) rest = first
            rw [if_neg larger, is]
        · exact Or.inr (List.mem_cons_of_mem _ member)
      · refine le_trans ?_ least
        split
        · rename_i larger; exact larger.le
        · exact le_refl _
      · intro owner member
        rcases List.mem_cons.mp member with rfl | member
        · refine le_trans ?_ least
          split
          · exact le_refl _
          · rename_i larger; exact not_lt.mp larger
        · exact most owner member

theorem firstMax_spec {κ : Type*} [LinearOrder κ] (key : String → κ) {owners : List String}
    (some_ : owners ≠ []) : ∃ best, firstMax key owners = some best ∧ best ∈ owners ∧
      ∀ owner ∈ owners, key owner ≤ key best := by
  cases owners with
  | nil => exact absurd rfl some_
  | cons first rest =>
      obtain ⟨named, least, most⟩ := foldl_max key rest first
      refine ⟨_, rfl, List.mem_cons.mpr named, fun owner member => ?_⟩
      rcases List.mem_cons.mp member with rfl | member
      · exact least
      · exact most owner member

theorem mem_sortedOwners (owners : List String) (owner : String) :
    owner ∈ sortedOwners owners ↔ owner ∈ owners :=
  (List.perm_insertionSort _ owners).mem_iff

/-- Whom `max` picks on a side. -/
def furthest (lots : Dict String ℤ) (key : String → ℤ) : String :=
  (firstMax key (sortedOwners lots.keys)).getD ""

def lotsOf (lots : Dict String ℤ) (owner : String) : ℤ := (lots.get owner).getD 0

/-- What `owner` holds once `total` lots are handed out. -/
def gotLots (lots : Dict String ℤ) (total : ℤ) : String → ℤ :=
  Apportion.handed (lotsOf lots) lots.values.sum (furthest lots) total.toNat

theorem firstMax_furthest {lots : Dict String ℤ} (some_ : lots.keys ≠ []) (key : String → ℤ) :
    firstMax key (sortedOwners lots.keys) = some (furthest lots key) := by
  have sorted : sortedOwners lots.keys ≠ [] := by
    intro none_
    apply some_
    rw [List.eq_nil_iff_forall_not_mem] at none_ ⊢
    intro owner member
    exact none_ owner ((mem_sortedOwners _ _).mpr member)
  obtain ⟨best, named, _⟩ := firstMax_spec key sorted
  unfold furthest
  rw [named]
  rfl

theorem furthest_picksMax {lots : Dict String ℤ} (some_ : lots.keys ≠ []) :
    Apportion.PicksMax lots.keys.toFinset (furthest lots) := by
  intro key
  have sorted : sortedOwners lots.keys ≠ [] := by
    intro none_
    have picked := firstMax_furthest some_ key
    rw [none_] at picked
    cases picked
  obtain ⟨best, named, member, most⟩ := firstMax_spec key sorted
  rw [firstMax_furthest some_] at named
  cases named
  refine ⟨List.mem_toFinset.mpr ((mem_sortedOwners _ _).mp member), fun owner there => ?_⟩
  exact most owner ((mem_sortedOwners _ _).mpr (List.mem_toFinset.mp there))

/-- One lot handed out, the `i + 1`st of its side. -/
def handLot (lots got : Dict String ℤ) (i : ℕ) : Dict String ℤ :=
  match firstMax (fun owner => (lots.get owner).getD 0 * (i + 1) -
      (got.get owner).getD 0 * lots.values.sum) (sortedOwners lots.keys) with
  | none => got
  | some best => got.set best ((got.get best).getD 0 + 1)

theorem handOut_foldl (lots : Dict String ℤ) (total : ℤ) :
    handOut lots total =
      (List.range total.toNat).foldl (handLot lots) (lots.map fun _ => 0) := by
  show List.foldl _ _ ((List.range total.toNat).flatMap fun i : ℕ => [(i : ℤ)]) = _
  rw [← List.map_eq_flatMap, List.foldl_map]
  rfl

/-- **The hand-out is the greedy apportionment of the side's lots.** -/
theorem get_handOut (lots : Dict String ℤ) (total : ℤ) (owner : String) :
    (handOut lots total).get owner = (lots.get owner).map fun _ => gotLots lots total owner := by
  rw [handOut_foldl]
  unfold gotLots
  generalize total.toNat = n
  by_cases empty : lots.keys = []
  · -- No partition on this side: there is nobody to hand a lot to.
    have still : ∀ (k : List ℕ) (got : Dict String ℤ), k.foldl (handLot lots) got = got := by
      intro k
      induction k with
      | nil => exact fun _ => rfl
      | cons i rest ih =>
          intro got
          rw [List.foldl_cons, ih]
          unfold handLot
          rw [empty]
          rfl
    have none_ : lots.get owner = none := by
      rw [Dict.get_eq_none, empty]
      exact List.not_mem_nil
    rw [still, Dict.get_map, none_]
    rfl
  · have picks := furthest_picksMax empty
    induction n generalizing owner with
    | zero => rw [List.range_zero, List.foldl_nil, Dict.get_map]; rfl
    | succ n ih =>
        rw [List.range_succ, List.foldl_append, List.foldl_cons, List.foldl_nil]
        generalize (List.range n).foldl (handLot lots) (lots.map fun _ => 0) = before at ih ⊢
        set handed := Apportion.handed (lotsOf lots) lots.values.sum (furthest lots) n with handedIs
        have held : ∀ k, (before.get k).getD 0 = handed k := by
          intro k
          rw [ih k]
          cases there : lots.get k with
          | some x => rfl
          | none =>
              have absent : k ∉ lots.keys.toFinset := by
                rw [List.mem_toFinset, ← Dict.get_eq_none]
                exact there
              rw [handedIs, Apportion.handed_of_not_mem picks absent]
              rfl
        have behind : (fun owner => (lots.get owner).getD 0 * ((n : ℤ) + 1) -
            (before.get owner).getD 0 * lots.values.sum) =
              Apportion.behind (lotsOf lots) handed lots.values.sum (n + 1) := by
          funext k
          rw [held k]
          rfl
        unfold handLot
        rw [behind, firstMax_furthest empty, Apportion.handed_succ, ← handedIs]
        set best := furthest lots (Apportion.behind (lotsOf lots) handed lots.values.sum (n + 1))
          with bestIs
        show (before.set best ((before.get best).getD 0 + 1)).get owner = _
        rw [Dict.get_set, held, Function.update_apply]
        by_cases same : best = owner
        · have member := (picks
            (Apportion.behind (lotsOf lots) handed lots.values.sum (n + 1))).1
          rw [← bestIs, same, List.mem_toFinset, Dict.mem_keys] at member
          obtain ⟨x, there⟩ := member
          rw [if_pos same, if_pos same.symm, there, same]
          rfl
        · rw [if_neg same, if_neg (Ne.symm same)]
          exact ih owner

/-! ## The two sides of a basis -/

section Sides

variable {basis : Basis} {lotSize : Decimal}

/-- The whole lots in one partition's size. -/
def wholeLots (lotSize size : Decimal) : ℤ := truncate (|size| / lotSize)

/-- The partitions on the net's own side. -/
def onNetSide (basis : Basis) (size : Decimal) : Bool :=
  decide (0 < size) == decide (0 < basisNet basis)

/-- The whole lots on the side `onSide` picks. -/
def lotsOn (basis : Basis) (lotSize : Decimal) (onSide : Decimal → Bool) : ℤ :=
  ((basis.filter fun entry => onSide entry.2).map fun entry => wholeLots lotSize entry.2).sum

/-- The lots the net's own side holds above the side against it. -/
def lotNet (basis : Basis) (lotSize : Decimal) : ℤ :=
  lotsOn basis lotSize (onNetSide basis) - lotsOn basis lotSize fun size => !onNetSide basis size

theorem wholeLots_nonneg (positive : 0 < lotSize) (size : Decimal) :
    0 ≤ wholeLots lotSize size := by
  have share : 0 ≤ |size| / lotSize := div_nonneg (abs_nonneg size) positive.le
  unfold wholeLots truncate
  rw [if_pos share]
  exact Int.floor_nonneg.mpr share

theorem lotsOn_nonneg (basis : Basis) (positive : 0 < lotSize) (onSide : Decimal → Bool) :
    0 ≤ lotsOn basis lotSize onSide := by
  apply List.sum_nonneg
  intro lots member
  obtain ⟨entry, _, rfl⟩ := List.mem_map.mp member
  exact wholeLots_nonneg positive entry.2

theorem sideLots_entries (lotSize : Decimal) (distinct : (basis.map Prod.fst).Nodup) (onSide : Decimal → Bool) :
    (sideLots basis lotSize onSide).entries =
      (basis.filter fun entry => onSide entry.2).map fun entry =>
        (entry.1, wholeLots lotSize entry.2) := by
  unfold sideLots
  rw [Dict.entries_setAll, show (Dict.empty : Dict String ℤ).entries = [] from rfl, List.nil_append]
  · rfl
  · rw [show (Dict.empty : Dict String ℤ).entries = [] from rfl, List.nil_append, List.map_map]
    exact distinct.sublist (List.filter_sublist.map _)

theorem sideLots_keys (lotSize : Decimal) (distinct : (basis.map Prod.fst).Nodup) (onSide : Decimal → Bool) :
    (sideLots basis lotSize onSide).keys =
      (basis.filter fun entry => onSide entry.2).map Prod.fst := by
  unfold Dict.keys
  rw [sideLots_entries lotSize distinct, List.map_map]
  rfl

theorem sideLots_sum (lotSize : Decimal) (distinct : (basis.map Prod.fst).Nodup) (onSide : Decimal → Bool) :
    (sideLots basis lotSize onSide).values.sum = lotsOn basis lotSize onSide := by
  unfold Dict.values lotsOn
  rw [sideLots_entries lotSize distinct, List.map_map]
  rfl

theorem sideLots_get (lotSize : Decimal) (distinct : (basis.map Prod.fst).Nodup)
    (onSide : Decimal → Bool)
    {entry : String × Decimal} (member : entry ∈ basis) :
    (sideLots basis lotSize onSide).get entry.1 =
      if onSide entry.2 then some (wholeLots lotSize entry.2) else none := by
  split
  · rename_i here
    rw [Dict.get_eq_some, sideLots_entries lotSize distinct]
    exact List.mem_map_of_mem (List.mem_filter.mpr ⟨member, here⟩)
  · rename_i there
    rw [Dict.get_eq_none, sideLots_keys lotSize distinct]
    intro named
    obtain ⟨other, found, same⟩ := List.mem_map.mp named
    obtain ⟨held, onOther⟩ := List.mem_filter.mp found
    have is : other = entry := List.inj_on_of_nodup_map distinct held member same
    rw [is] at onOther
    exact there onOther

/-- A side's lots, summed over its owners. -/
theorem sum_lotsOf (lots : Dict String ℤ) :
    ∑ owner ∈ lots.keys.toFinset, lotsOf lots owner = lots.values.sum := by
  rw [List.sum_toFinset _ lots.keys_nodup]
  unfold Dict.keys Dict.values
  rw [List.map_map]
  congr 1
  apply List.map_congr_left
  intro entry member
  show (lots.get entry.1).getD 0 = entry.2
  rw [(lots.get_eq_some entry.1 entry.2).mpr member]
  rfl

/-- What one side's partitions hold after `total` lots, one by one. -/
theorem sum_gotLots (lots : Dict String ℤ) {total : ℤ} (signed : 0 ≤ total)
    (some_ : total = 0 ∨ lots.keys ≠ []) : (lots.keys.map (gotLots lots total)).sum = total := by
  rcases some_ with none_ | some_
  · subst none_
    apply List.sum_eq_zero
    intro got member
    obtain ⟨owner, _, rfl⟩ := List.mem_map.mp member
    rfl
  · rw [← List.sum_toFinset _ lots.keys_nodup]
    unfold gotLots
    rw [Apportion.sum_handed (furthest_picksMax some_)]
    exact Int.toNat_of_nonneg signed

/-- **A side whose lots cover the total** hands no partition past its own. -/
theorem gotLots_le {lots : Dict String ℤ} (signed : ∀ owner, 0 ≤ lotsOf lots owner) {total : ℤ}
    (nonneg : 0 ≤ total) (short : total ≤ lots.values.sum) {owner : String}
    (member : owner ∈ lots.keys) : gotLots lots total owner ≤ lotsOf lots owner := by
  have some_ : lots.keys ≠ [] := List.ne_nil_of_mem member
  refine Apportion.handed_le (furthest_picksMax some_) (sum_lotsOf lots)
    (fun k _ => signed k) ?_ (List.mem_toFinset.mpr member)
  rw [Int.toNat_of_nonneg nonneg]
  exact short

theorem gotLots_full {lots : Dict String ℤ} (signed : ∀ owner, 0 ≤ lotsOf lots owner)
    (nonneg : 0 ≤ lots.values.sum) {owner : String} (member : owner ∈ lots.keys) :
    gotLots lots lots.values.sum owner = lotsOf lots owner :=
  Apportion.handed_full (furthest_picksMax (List.ne_nil_of_mem member)) (sum_lotsOf lots)
    (fun k _ => signed k) (Int.toNat_of_nonneg nonneg) (List.mem_toFinset.mpr member)

theorem gotLots_mono {lots : Dict String ℤ} {fewer more : ℤ} (le : fewer ≤ more)
    (owner : String) : gotLots lots fewer owner ≤ gotLots lots more owner :=
  Apportion.handed_mono (Int.toNat_le_toNat le) owner

theorem gotLots_nonneg (lots : Dict String ℤ) (total : ℤ) (owner : String) :
    0 ≤ gotLots lots total owner :=
  Apportion.handed_nonneg _ owner

/-! ## What each partition has moved -/

/-- What the net's own side has moved after `filled` lots. -/
def netSideMoved (basis : Basis) (lotSize : Decimal) (filled : ℤ) : ℤ :=
  Int.fdiv (lotsOn basis lotSize (onNetSide basis) * filled) (lotNet basis lotSize)

/-- The lots one partition has moved toward zero after `filled` lots. -/
def movedLots (basis : Basis) (lotSize : Decimal) (filled : ℤ) (entry : String × Decimal) : ℤ :=
  if onNetSide basis entry.2 then
    gotLots (sideLots basis lotSize (onNetSide basis)) (netSideMoved basis lotSize filled) entry.1
  else
    gotLots (sideLots basis lotSize fun size => !onNetSide basis size)
      (netSideMoved basis lotSize filled - filled) entry.1

/-- The sign that takes a size toward zero. -/
def toward (size : Decimal) : Decimal := if 0 < size then -1 else 1

theorem totalMoves_zeroDivision (distinct : (basis.map Prod.fst).Nodup)
    (none_ : lotNet basis lotSize = 0) (filled : Decimal) :
    totalMoves basis lotSize filled = .error .zeroDivision := by
  have sides := none_
  unfold lotNet at sides
  rw [← sideLots_sum lotSize distinct, ← sideLots_sum lotSize distinct] at sides
  unfold totalMoves
  exact if_pos sides

theorem totalMoves_eq (distinct : (basis.map Prod.fst).Nodup) (some_ : lotNet basis lotSize ≠ 0)
    (filled : Decimal) : totalMoves basis lotSize filled = .ok (basis.map fun entry =>
      (entry.1, toward entry.2 *
        (movedLots basis lotSize (truncate (filled / lotSize)) entry : Decimal) * lotSize)) := by
  have withNet := sideLots_sum lotSize distinct (onNetSide basis)
  have against := sideLots_sum lotSize distinct fun size => !onNetSide basis size
  have sides : (sideLots basis lotSize (onNetSide basis)).values.sum -
      (sideLots basis lotSize fun size => !onNetSide basis size).values.sum =
        lotNet basis lotSize := by rw [withNet, against]; rfl
  have moved : Int.fdiv ((sideLots basis lotSize (onNetSide basis)).values.sum *
      truncate (filled / lotSize)) (lotNet basis lotSize) =
        netSideMoved basis lotSize (truncate (filled / lotSize)) := by rw [withNet]; rfl
  unfold totalMoves
  refine (if_neg ?_).trans ?_
  · show (sideLots basis lotSize (onNetSide basis)).values.sum -
      (sideLots basis lotSize fun size => !onNetSide basis size).values.sum ≠ 0
    rw [sides]
    exact some_
  · refine congrArg Except.ok (List.map_congr_left fun entry member => ?_)
    show (entry.1, toward entry.2 * (((((handOut (sideLots basis lotSize fun size =>
        !onNetSide basis size) (Int.fdiv ((sideLots basis lotSize (onNetSide basis)).values.sum *
          truncate (filled / lotSize)) ((sideLots basis lotSize (onNetSide basis)).values.sum -
      (sideLots basis lotSize fun size => !onNetSide basis size).values.sum) -
            truncate (filled / lotSize))).get entry.1).or
        ((handOut (sideLots basis lotSize (onNetSide basis))
          (Int.fdiv ((sideLots basis lotSize (onNetSide basis)).values.sum *
            truncate (filled / lotSize)) ((sideLots basis lotSize (onNetSide basis)).values.sum -
      (sideLots basis lotSize fun size => !onNetSide basis size).values.sum))).get
            entry.1)).getD 0 : ℤ) : Decimal) * lotSize) = _
    rw [sides, moved, get_handOut, get_handOut, sideLots_get lotSize distinct _ member,
      sideLots_get lotSize distinct _ member]
    unfold movedLots
    cases onNetSide basis entry.2 <;> rfl

/-- The order's fill is what the net's side moved above the side against it. -/
theorem netSideMoved_sub (some_ : 0 < lotNet basis lotSize) (filled : ℤ) :
    netSideMoved basis lotSize filled - filled =
      (lotsOn basis lotSize (fun size => !onNetSide basis size) * filled) /
        lotNet basis lotSize := by
  have split : lotsOn basis lotSize (onNetSide basis) * filled =
      (lotsOn basis lotSize fun size => !onNetSide basis size) * filled +
        lotNet basis lotSize * filled := by
    unfold lotNet
    ring
  unfold netSideMoved
  rw [Int.fdiv_eq_ediv_of_nonneg _ some_.le, split, Int.add_mul_ediv_left _ _ some_.ne']
  ring

theorem netSideMoved_nonneg (positive : 0 < lotSize) (some_ : 0 < lotNet basis lotSize)
    {filled : ℤ} (signed : 0 ≤ filled) : 0 ≤ netSideMoved basis lotSize filled := by
  unfold netSideMoved
  rw [Int.fdiv_eq_ediv_of_nonneg _ some_.le]
  exact Int.ediv_nonneg (mul_nonneg (lotsOn_nonneg basis positive _) signed) some_.le

theorem againstMoved_nonneg (positive : 0 < lotSize) (some_ : 0 < lotNet basis lotSize)
    {filled : ℤ} (signed : 0 ≤ filled) : 0 ≤ netSideMoved basis lotSize filled - filled := by
  rw [netSideMoved_sub some_]
  exact Int.ediv_nonneg (mul_nonneg (lotsOn_nonneg basis positive _) signed) some_.le

theorem netSideMoved_mono (positive : 0 < lotSize) (some_ : 0 < lotNet basis lotSize)
    {fewer more : ℤ} (le : fewer ≤ more) :
    netSideMoved basis lotSize fewer ≤ netSideMoved basis lotSize more ∧
      netSideMoved basis lotSize fewer - fewer ≤ netSideMoved basis lotSize more - more := by
  constructor
  · unfold netSideMoved
    rw [Int.fdiv_eq_ediv_of_nonneg _ some_.le, Int.fdiv_eq_ediv_of_nonneg _ some_.le]
    exact Int.ediv_le_ediv some_ (mul_le_mul_of_nonneg_left le (lotsOn_nonneg basis positive _))
  · rw [netSideMoved_sub some_, netSideMoved_sub some_]
    exact Int.ediv_le_ediv some_ (mul_le_mul_of_nonneg_left le (lotsOn_nonneg basis positive _))

theorem netSideMoved_le (positive : 0 < lotSize) (some_ : 0 < lotNet basis lotSize) {filled : ℤ}
    (short : filled ≤ lotNet basis lotSize) :
    netSideMoved basis lotSize filled ≤ lotsOn basis lotSize (onNetSide basis) ∧
      netSideMoved basis lotSize filled - filled ≤
        lotsOn basis lotSize fun size => !onNetSide basis size := by
  constructor
  · unfold netSideMoved
    rw [Int.fdiv_eq_ediv_of_nonneg _ some_.le]
    exact Int.ediv_le_of_le_mul some_
      (mul_le_mul_of_nonneg_left short (lotsOn_nonneg basis positive _))
  · rw [netSideMoved_sub some_]
    exact Int.ediv_le_of_le_mul some_
      (mul_le_mul_of_nonneg_left short (lotsOn_nonneg basis positive _))

theorem netSideMoved_full (some_ : 0 < lotNet basis lotSize) :
    netSideMoved basis lotSize (lotNet basis lotSize) =
      lotsOn basis lotSize (onNetSide basis) := by
  unfold netSideMoved
  rw [Int.fdiv_eq_ediv_of_nonneg _ some_.le, Int.mul_ediv_cancel _ some_.ne']

/-- One lot past the lot net moves the net's side past its own lots. -/
theorem netSideMoved_past (positive : 0 < lotSize) (some_ : 0 < lotNet basis lotSize) {filled : ℤ}
    (past : lotNet basis lotSize < filled) :
    lotsOn basis lotSize (onNetSide basis) < netSideMoved basis lotSize filled := by
  have more : lotsOn basis lotSize (onNetSide basis) + 1 ≤
      netSideMoved basis lotSize filled := by
    unfold netSideMoved
    rw [Int.fdiv_eq_ediv_of_nonneg _ some_.le]
    rw [Int.le_ediv_iff_mul_le some_]
    have against := lotsOn_nonneg basis positive fun size => !onNetSide basis size
    have own : lotNet basis lotSize ≤ lotsOn basis lotSize (onNetSide basis) := by
      unfold lotNet
      omega
    calc (lotsOn basis lotSize (onNetSide basis) + 1) * lotNet basis lotSize
        ≤ lotsOn basis lotSize (onNetSide basis) * lotNet basis lotSize +
            lotsOn basis lotSize (onNetSide basis) := by linarith
      _ = lotsOn basis lotSize (onNetSide basis) * (lotNet basis lotSize + 1) := by ring
      _ ≤ lotsOn basis lotSize (onNetSide basis) * filled :=
          mul_le_mul_of_nonneg_left past (lotsOn_nonneg basis positive _)
  omega

/-! ## One partition over the order -/

theorem lotsOf_nonneg (positive : 0 < lotSize) (distinct : (basis.map Prod.fst).Nodup)
    (onSide : Decimal → Bool) (owner : String) :
    0 ≤ lotsOf (sideLots basis lotSize onSide) owner := by
  unfold lotsOf
  cases there : (sideLots basis lotSize onSide).get owner with
  | none => exact le_refl _
  | some lots =>
      rw [Dict.get_eq_some, sideLots_entries lotSize distinct] at there
      obtain ⟨entry, _, same⟩ := List.mem_map.mp there
      cases same
      exact wholeLots_nonneg positive entry.2

theorem lotsOf_sideLots (lotSize : Decimal) (distinct : (basis.map Prod.fst).Nodup)
    (onSide : Decimal → Bool)
    {entry : String × Decimal} (member : entry ∈ basis) (here : onSide entry.2 = true) :
    entry.1 ∈ (sideLots basis lotSize onSide).keys ∧
      lotsOf (sideLots basis lotSize onSide) entry.1 = wholeLots lotSize entry.2 := by
  have there := sideLots_get lotSize distinct onSide member
  rw [if_pos here] at there
  refine ⟨(Dict.mem_keys _ _).mpr ⟨_, there⟩, ?_⟩
  unfold lotsOf
  rw [there]
  rfl

theorem movedLots_nonneg (basis : Basis) (lotSize : Decimal) (filled : ℤ)
    (entry : String × Decimal) : 0 ≤ movedLots basis lotSize filled entry := by
  unfold movedLots
  split
  · exact gotLots_nonneg _ _ _
  · exact gotLots_nonneg _ _ _

/-- **A partition never moves back.** -/
theorem movedLots_mono (positive : 0 < lotSize) (some_ : 0 < lotNet basis lotSize)
    {fewer more : ℤ} (le : fewer ≤ more) (entry : String × Decimal) :
    movedLots basis lotSize fewer entry ≤ movedLots basis lotSize more entry := by
  obtain ⟨withNet, against⟩ := netSideMoved_mono positive some_ le
  unfold movedLots
  split
  · exact gotLots_mono withNet _
  · exact gotLots_mono against _

/-- **Within the lot net no partition passes its own whole lots.** -/
theorem movedLots_le (positive : 0 < lotSize) (distinct : (basis.map Prod.fst).Nodup)
    (some_ : 0 < lotNet basis lotSize) {filled : ℤ} (signed : 0 ≤ filled)
    (short : filled ≤ lotNet basis lotSize) {entry : String × Decimal} (member : entry ∈ basis) :
    movedLots basis lotSize filled entry ≤ wholeLots lotSize entry.2 := by
  obtain ⟨withNet, against⟩ := netSideMoved_le positive some_ short
  unfold movedLots
  split
  · rename_i here
    obtain ⟨named, lots⟩ := lotsOf_sideLots lotSize distinct _ member here
    rw [← lots]
    refine gotLots_le (lotsOf_nonneg positive distinct _)
      (netSideMoved_nonneg positive some_ signed) ?_ named
    rw [sideLots_sum lotSize distinct]
    exact withNet
  · rename_i there
    have here : (!onNetSide basis entry.2) = true := by simpa using there
    obtain ⟨named, lots⟩ :=
      lotsOf_sideLots lotSize distinct (fun size => !onNetSide basis size) member here
    rw [← lots]
    refine gotLots_le (lotsOf_nonneg positive distinct _)
      (againstMoved_nonneg positive some_ signed) ?_ named
    rw [sideLots_sum lotSize distinct]
    exact against

/-- **The whole lot net filled leaves every partition through its whole lots.** -/
theorem movedLots_full (positive : 0 < lotSize) (distinct : (basis.map Prod.fst).Nodup)
    (some_ : 0 < lotNet basis lotSize) {entry : String × Decimal} (member : entry ∈ basis) :
    movedLots basis lotSize (lotNet basis lotSize) entry = wholeLots lotSize entry.2 := by
  have full := netSideMoved_full some_
  unfold movedLots
  split
  · rename_i here
    obtain ⟨named, lots⟩ := lotsOf_sideLots lotSize distinct _ member here
    rw [full, ← sideLots_sum lotSize distinct, ← lots]
    exact gotLots_full (lotsOf_nonneg positive distinct _)
      (by rw [sideLots_sum lotSize distinct]; exact lotsOn_nonneg basis positive _) named
  · rename_i there
    have here : (!onNetSide basis entry.2) = true := by simpa using there
    obtain ⟨named, lots⟩ :=
      lotsOf_sideLots lotSize distinct (fun size => !onNetSide basis size) member here
    have left : lotsOn basis lotSize (onNetSide basis) - lotNet basis lotSize =
        lotsOn basis lotSize fun size => !onNetSide basis size := by
      unfold lotNet
      ring
    rw [full, left, ← sideLots_sum lotSize distinct, ← lots]
    exact gotLots_full (lotsOf_nonneg positive distinct _)
      (by rw [sideLots_sum lotSize distinct]; exact lotsOn_nonneg basis positive _) named

/-- **Past the lot net some partition is flipped.** -/
theorem movedLots_past (positive : 0 < lotSize) (distinct : (basis.map Prod.fst).Nodup)
    (some_ : 0 < lotNet basis lotSize) {filled : ℤ} (past : lotNet basis lotSize < filled) :
    ∃ entry ∈ basis, wholeLots lotSize entry.2 < movedLots basis lotSize filled entry := by
  have more := netSideMoved_past positive some_ past
  have signed : 0 ≤ netSideMoved basis lotSize filled :=
    le_trans (lotsOn_nonneg basis positive _) more.le
  set lots := sideLots basis lotSize (onNetSide basis) with lotsIs
  have sum : lots.values.sum = lotsOn basis lotSize (onNetSide basis) := sideLots_sum lotSize distinct _
  have named : lots.keys ≠ [] := by
    intro none_
    have zero : lots.values.sum = 0 := by
      rw [← sum_lotsOf, none_]
      rfl
    rw [sum] at zero
    have against := lotsOn_nonneg basis positive fun size => !onNetSide basis size
    unfold lotNet at some_
    omega
  have total : lots.values.sum < ((netSideMoved basis lotSize filled).toNat : ℤ) := by
    rw [Int.toNat_of_nonneg signed, sum]
    exact more
  obtain ⟨owner, member, pushed⟩ :=
    Apportion.exists_past (furthest_picksMax named) (sum_lotsOf lots) total
  rw [List.mem_toFinset, sideLots_keys lotSize distinct] at member
  obtain ⟨entry, found, rfl⟩ := List.mem_map.mp member
  obtain ⟨held, here⟩ := List.mem_filter.mp found
  refine ⟨entry, held, ?_⟩
  unfold movedLots
  rw [if_pos here, ← (lotsOf_sideLots lotSize distinct _ held here).2]
  exact pushed

/-- One side's partitions together move what the side was handed. -/
theorem sum_side (distinct : (basis.map Prod.fst).Nodup) (onSide : Decimal → Bool) {total : ℤ}
    (signed : 0 ≤ total) (covered : total = 0 ∨ lotsOn basis lotSize onSide ≠ 0) :
    ((basis.filter fun entry => onSide entry.2).map fun entry =>
      gotLots (sideLots basis lotSize onSide) total entry.1).sum = total := by
  have keys := sideLots_keys lotSize distinct onSide
  have whole := sum_gotLots (sideLots basis lotSize onSide) signed
    (covered.imp_right fun some_ none_ => some_ (by
      rw [← sideLots_sum lotSize distinct, ← sum_lotsOf, none_]
      rfl))
  rw [keys, List.map_map] at whole
  exact whole

theorem toward_onNetSide {size : Decimal} (here : onNetSide basis size = true) :
    toward size = toward (basisNet basis) := by
  simp only [onNetSide, beq_iff_eq, decide_eq_decide] at here
  simp only [toward, here]

theorem toward_against {size : Decimal} (there : (!onNetSide basis size) = true) :
    toward size = -toward (basisNet basis) := by
  simp only [onNetSide, Bool.not_eq_true', beq_eq_false_iff_ne, ne_eq, decide_eq_decide] at there
  unfold toward
  by_cases long : 0 < size
  · rw [if_pos long, if_neg (fun net => there ⟨fun _ => net, fun _ => long⟩)]
  · have net : 0 < basisNet basis := by
      by_contra none_
      exact there ⟨fun pos => absurd pos long, fun pos => absurd pos none_⟩
    rw [if_neg long, if_pos net, neg_neg]

/-- A sum of moves toward zero is the net's side less the side against it. -/
theorem sum_toward (basis : Basis) (f : String × Decimal → Decimal) :
    (basis.map fun entry => toward entry.2 * f entry).sum = toward (basisNet basis) *
      (((basis.filter fun entry => onNetSide basis entry.2).map f).sum -
        ((basis.filter fun entry => !onNetSide basis entry.2).map f).sum) := by
  have split := List.sum_map_filter_add_sum_map_filter_not
    (fun entry : String × Decimal => onNetSide basis entry.2 = true)
    (fun entry => toward entry.2 * f entry) basis
  simp only [Bool.decide_eq_true, Bool.not_eq_true, Bool.decide_eq_false] at split
  have own : ((basis.filter fun entry => onNetSide basis entry.2).map fun entry =>
      toward entry.2 * f entry) = (basis.filter fun entry => onNetSide basis entry.2).map
        fun entry => toward (basisNet basis) * f entry := by
    apply List.map_congr_left
    intro entry member
    rw [toward_onNetSide (List.mem_filter.mp member).2]
  have other : ((basis.filter fun entry => !onNetSide basis entry.2).map fun entry =>
      toward entry.2 * f entry) = (basis.filter fun entry => !onNetSide basis entry.2).map
        fun entry => -toward (basisNet basis) * f entry := by
    apply List.map_congr_left
    intro entry member
    rw [toward_against (List.mem_filter.mp member).2]
  rw [← split, own, other, List.sum_map_mul_left, List.sum_map_mul_left]
  ring

/-- **What the order has filled is what the partitions moved**, each with the
sign that takes it toward zero. -/
theorem sum_movedLots (positive : 0 < lotSize) (distinct : (basis.map Prod.fst).Nodup)
    (some_ : 0 < lotNet basis lotSize) {filled : ℤ} (signed : 0 ≤ filled) :
    (basis.map fun entry =>
      toward entry.2 * (movedLots basis lotSize filled entry : Decimal)).sum =
        toward (basisNet basis) * filled := by
  have against := lotsOn_nonneg basis positive fun size => !onNetSide basis size
  have cast : ∀ entries : Basis,
      (entries.map fun entry => (movedLots basis lotSize filled entry : Decimal)).sum =
        ((entries.map (movedLots basis lotSize filled)).sum : ℤ) := by
    intro entries
    push_cast
    rw [List.map_map]
    rfl
  have own : (basis.filter fun entry => onNetSide basis entry.2).map
      (movedLots basis lotSize filled) = (basis.filter fun entry => onNetSide basis entry.2).map
        fun entry => gotLots (sideLots basis lotSize (onNetSide basis))
          (netSideMoved basis lotSize filled) entry.1 := by
    apply List.map_congr_left
    intro entry member
    exact if_pos (List.mem_filter.mp member).2
  have other : (basis.filter fun entry => !onNetSide basis entry.2).map
      (movedLots basis lotSize filled) = (basis.filter fun entry => !onNetSide basis entry.2).map
        fun entry => gotLots (sideLots basis lotSize fun size => !onNetSide basis size)
          (netSideMoved basis lotSize filled - filled) entry.1 := by
    apply List.map_congr_left
    intro entry member
    have off := (List.mem_filter.mp member).2
    rw [Bool.not_eq_true'] at off
    unfold movedLots
    rw [off]
    rfl
  have held : lotsOn basis lotSize (onNetSide basis) ≠ 0 := by
    have net := some_
    unfold lotNet at net
    omega
  have ownSum := sum_side distinct (onNetSide basis)
    (netSideMoved_nonneg positive some_ signed) (Or.inr held)
  have otherSum := sum_side distinct (fun size => !onNetSide basis size)
    (againstMoved_nonneg positive some_ signed) (by
      by_cases none_ : lotsOn basis lotSize (fun size => !onNetSide basis size) = 0
      · left
        rw [netSideMoved_sub some_, none_, zero_mul, Int.zero_ediv]
      · exact Or.inr none_)
  rw [sum_toward, cast, cast, own, other, ownSum, otherSum]
  push_cast
  ring

end Sides

/-! ## One fill -/

section Fill

variable {basis : Basis} {lotSize : Decimal}

/-- What one fill moves each partition by, zero moves left out. -/
def fillMoves (basis : Basis) (lotSize cumBefore cumQty : Decimal) : List (String × Decimal) :=
  (basis.map fun entry => (entry.1, toward entry.2 *
    ((movedLots basis lotSize (truncate (cumQty / lotSize)) entry -
      movedLots basis lotSize (truncate (cumBefore / lotSize)) entry : ℤ) : Decimal) *
        lotSize)).filter fun move => decide (move.2 ≠ 0)

/-- The signed moves of a split. -/
def sizesOf (moves : List (String × PartitionMove)) : List (String × Decimal) :=
  moves.map fun entry => (entry.1, entry.2.size)

/-- **A split that returns** moves every partition by the difference of two
hand-outs. -/
theorem flattenSplit_ok (distinct : (basis.map Prod.fst).Nodup) {cumQty quantity fee : Decimal}
    {moves : List (String × PartitionMove)}
    (split : flattenSplit basis lotSize cumQty quantity fee = .ok moves) :
    lotNet basis lotSize ≠ 0 ∧
      sizesOf moves = fillMoves basis lotSize (cumQty - quantity) cumQty := by
  by_cases none_ : lotNet basis lotSize = 0
  · simp only [flattenSplit, totalMoves_zeroDivision distinct none_] at split
    split at split
    · cases split
    · split at split <;> cases split
  · refine ⟨none_, ?_⟩
    simp only [flattenSplit, totalMoves_eq distinct none_] at split
    split at split
    · cases split
    · split at split
      · cases split
      · cases split
        unfold sizesOf fillMoves
        rw [List.map_map, List.zip_map', List.map_map]
        have same : ∀ entries : List (String × Decimal), ∀ fees : Dict String Decimal,
            entries.map ((fun entry : String × PartitionMove => (entry.1, entry.2.size)) ∘
              fun move => (move.1, ⟨move.2, (fees.get move.1).getD 0⟩)) = entries :=
          fun entries fees => List.map_id entries
        rw [same]
        congr 1
        apply List.map_congr_left
        intro entry _
        simp only [Function.comp_apply, Prod.mk.injEq, true_and]
        push_cast
        ring

/-- A split returns for every fill within the net, once whole lots have a net. -/
theorem flattenSplit_defined (distinct : (basis.map Prod.fst).Nodup)
    (some_ : lotNet basis lotSize ≠ 0) (net : basisNet basis ≠ 0)
    {cumQty : Decimal} (within : cumQty ≤ |basisNet basis|) (quantity fee : Decimal) :
    ∃ moves, flattenSplit basis lotSize cumQty quantity fee = .ok moves := by
  unfold flattenSplit
  simp only [if_neg net, if_neg (not_lt.mpr within), totalMoves_eq distinct some_]
  exact ⟨_, rfl⟩

/-- What a list of moves moves one partition by. -/
def movedBy (moves : List (String × Decimal)) (owner : String) : Decimal :=
  ((moves.filter fun move => decide (move.1 = owner)).map Prod.snd).sum

theorem movedBy_nonzero (moves : List (String × Decimal)) (owner : String) :
    movedBy (moves.filter fun move => decide (move.2 ≠ 0)) owner = movedBy moves owner := by
  unfold movedBy
  induction moves with
  | nil => rfl
  | cons move rest ih =>
      by_cases zero : move.2 = 0
      · rw [List.filter_cons_of_neg (by simpa using zero), ih]
        by_cases here : move.1 = owner
        · rw [List.filter_cons_of_pos (by simpa using here), List.map_cons, List.sum_cons, zero,
            zero_add]
        · rw [List.filter_cons_of_neg (by simpa using here)]
      · rw [List.filter_cons_of_pos (by simpa using zero)]
        by_cases here : move.1 = owner
        · rw [List.filter_cons_of_pos (by simpa using here),
            List.filter_cons_of_pos (by simpa using here), List.map_cons, List.map_cons,
            List.sum_cons, List.sum_cons, ih]
        · rw [List.filter_cons_of_neg (by simpa using here),
            List.filter_cons_of_neg (by simpa using here), ih]

theorem sum_nonzero (moves : List (String × Decimal)) :
    ((moves.filter fun move => decide (move.2 ≠ 0)).map Prod.snd).sum =
      (moves.map Prod.snd).sum := by
  induction moves with
  | nil => rfl
  | cons move rest ih =>
      by_cases zero : move.2 = 0
      · rw [List.filter_cons_of_neg (by simpa using zero), List.map_cons, List.sum_cons, ih, zero,
          zero_add]
      · rw [List.filter_cons_of_pos (by simpa using zero), List.map_cons, List.map_cons,
          List.sum_cons, List.sum_cons, ih]

/-- With distinct owners, an owner's moves are its entry's one. -/
theorem movedBy_map (g : String × Decimal → Decimal) (distinct : (basis.map Prod.fst).Nodup)
    {entry : String × Decimal} (member : entry ∈ basis) :
    movedBy (basis.map fun entry => (entry.1, g entry)) entry.1 = g entry := by
  unfold movedBy
  induction basis with
  | nil => cases member
  | cons head rest ih =>
      rw [List.map_cons, List.nodup_cons] at distinct
      rw [List.map_cons]
      rcases List.mem_cons.mp member with rfl | member
      · have others : (rest.map fun e => (e.1, g e)).filter
            (fun move => decide (move.1 = entry.1)) = [] := by
          rw [List.filter_eq_nil_iff]
          intro move there
          obtain ⟨e, held, rfl⟩ := List.mem_map.mp there
          simp only [decide_eq_true_eq]
          intro same
          exact distinct.1 (same ▸ List.mem_map_of_mem held)
        rw [List.filter_cons_of_pos (by simp), others, List.map_cons, List.map_nil, List.sum_cons,
          List.sum_nil, add_zero]
      · have other : head.1 ≠ entry.1 := by
          intro same
          exact distinct.1 (same ▸ List.mem_map_of_mem member)
        rw [List.filter_cons_of_neg (by simpa using other)]
        exact ih distinct.2 member

/-- **A fill moves a partition by the difference of its two hand-outs.** -/
theorem movedBy_fillMoves (distinct : (basis.map Prod.fst).Nodup) (cumBefore cumQty : Decimal)
    {entry : String × Decimal} (member : entry ∈ basis) :
    movedBy (fillMoves basis lotSize cumBefore cumQty) entry.1 = toward entry.2 *
      ((movedLots basis lotSize (truncate (cumQty / lotSize)) entry : Decimal) -
        movedLots basis lotSize (truncate (cumBefore / lotSize)) entry) * lotSize := by
  unfold fillMoves
  rw [movedBy_nonzero, movedBy_map _ distinct member]
  push_cast
  ring

/-- **A fill's moves add up to the lots it filled**, on the closing side. -/
theorem sum_fillMoves (positive : 0 < lotSize) (distinct : (basis.map Prod.fst).Nodup)
    (some_ : 0 < lotNet basis lotSize) {cumBefore cumQty : Decimal}
    (signed : 0 ≤ truncate (cumBefore / lotSize)) (signed' : 0 ≤ truncate (cumQty / lotSize)) :
    ((fillMoves basis lotSize cumBefore cumQty).map Prod.snd).sum = toward (basisNet basis) *
      ((truncate (cumQty / lotSize) : Decimal) - truncate (cumBefore / lotSize)) * lotSize := by
  unfold fillMoves
  rw [sum_nonzero, List.map_map]
  have each : (basis.map (Prod.snd ∘ fun entry : String × Decimal => (entry.1, toward entry.2 *
      ((movedLots basis lotSize (truncate (cumQty / lotSize)) entry -
        movedLots basis lotSize (truncate (cumBefore / lotSize)) entry : ℤ) : Decimal) *
          lotSize))) = basis.map fun entry =>
      (toward entry.2 * (movedLots basis lotSize (truncate (cumQty / lotSize)) entry : Decimal) +
        -1 * (toward entry.2 *
          (movedLots basis lotSize (truncate (cumBefore / lotSize)) entry : Decimal))) *
            lotSize := by
    apply List.map_congr_left
    intro entry _
    simp only [Function.comp_apply]
    push_cast
    ring
  rw [each, List.sum_map_mul_right, List.sum_map_add, List.sum_map_mul_left,
    sum_movedLots positive distinct some_ signed, sum_movedLots positive distinct some_ signed']
  ring

/-- **Every move goes toward zero**: it is against the size of its own partition,
by some whole lots. -/
theorem fillMoves_toward (positive : 0 < lotSize) (distinct : (basis.map Prod.fst).Nodup)
    (some_ : 0 < lotNet basis lotSize) {cumBefore cumQty : Decimal}
    (signed : 0 ≤ truncate (cumBefore / lotSize))
    (grows : truncate (cumBefore / lotSize) ≤ truncate (cumQty / lotSize))
    (within : truncate (cumQty / lotSize) ≤ lotNet basis lotSize) {move : String × Decimal}
    (member : move ∈ fillMoves basis lotSize cumBefore cumQty) :
    ∃ entry ∈ basis, entry.1 = move.1 ∧ move.2 * entry.2 < 0 := by
  unfold fillMoves at member
  obtain ⟨named, nonzero⟩ := List.mem_filter.mp member
  obtain ⟨entry, held, rfl⟩ := List.mem_map.mp named
  refine ⟨entry, held, rfl, ?_⟩
  have more := movedLots_mono positive some_ grows entry
  have least := movedLots_nonneg basis lotSize (truncate (cumBefore / lotSize)) entry
  have most := movedLots_le positive distinct some_ (signed.trans grows) within held
  simp only [decide_eq_true_eq] at nonzero
  set moved := movedLots basis lotSize (truncate (cumQty / lotSize)) entry -
    movedLots basis lotSize (truncate (cumBefore / lotSize)) entry with movedIs
  have some_ : 0 < moved := by
    rcases lt_or_eq_of_le (sub_nonneg.mpr more) with some_ | none_
    · exact some_
    · rw [movedIs, ← none_] at nonzero
      exact absurd (by push_cast; ring) nonzero
  have sized : entry.2 ≠ 0 := by
    intro flat
    have none_ : wholeLots lotSize entry.2 = 0 := by
      unfold wholeLots
      rw [flat, abs_zero, zero_div]
      rfl
    omega
  have lots : (0 : Decimal) < (moved : Decimal) * lotSize :=
    mul_pos (by exact_mod_cast some_) positive
  unfold toward
  rcases lt_or_gt_of_ne sized with short | long
  · rw [if_neg (not_lt.mpr short.le), one_mul]
    exact mul_neg_of_pos_of_neg lots short
  · rw [if_pos long, neg_one_mul, neg_mul]
    exact mul_neg_of_neg_of_pos (neg_lt_zero.mpr lots) long

end Fill

end Tickwright.Engine
