/-
# Engine.BucketPosts -- which snapshot may post a bucket

A live isolated bucket is the venue's number.  A fill that opens, adds to or partly
closes a position leaves the bucket unposted, and the next account pass that carries
the position posts it.  The pass decides that by size: the venue's size of the symbol
is the ledger's.  A fill and its reverse booked between the read and the write leave
the size where it was, so a snapshot older than both posts its bucket, which is what
the fill stamps of the classification beside it are kept to tell.

* after a pass a partition still awaits its bucket exactly where it did once the pass's
  own heals were booked, and the sizes differ (`heal_awaits_iff`);
* over any run of fills and passes, no pass posts from a snapshot older than a fill on
  the symbol if and only if every pass finds each touched symbol's sizes apart, or no
  partition of it waiting (`no_stale_post_iff`);
* a buy and a sell of one BTC inside one read get the old bucket posted
  (`add_and_reduce_posted`).
-/
import Tickwright.Engine.NetCash
import Tickwright.Engine.Heal
import Tickwright.Theory.Machine

namespace Tickwright.Engine

open Tickwright.Domain Tickwright.Theory Tickwright.Store

set_option autoImplicit false

/-- Whether a filed partition waits for the venue to post its bucket. -/
def awaits (positions : Dict PartitionKey Position) (k : PartitionKey) : Bool :=
  (positions.get k).any fun position => position.isolatedCollateral.isNone

/-- A pass's venue read, and the symbols the engine booked a fill on since. -/
structure PassRead where
  snapshot : VenueAccountState
  touched : List Symbol := []

/-- The ledger beside the pass under way, and the partitions passes have posted from a
snapshot older than a fill on their symbol. -/
structure Intake where
  process : Process
  pass : Option PassRead := none
  stale : List PartitionKey := []

inductive IntakeStep
  /-- The engine books one fill of an order. -/
  | fill (order : Order) (tradeId : String) (quantity price cumQty fee : Decimal) (tsNs : Nanos)
  /-- A pass reads the venue. -/
  | read (snapshot : VenueAccountState)
  /-- The pass writes its heals with that snapshot. -/
  | heal (fills : List ReconciliationFill) (cash : Option CashCorrection) (tsNs : Nanos)

namespace Intake

variable (config : Config)

/-- A fill the ledger already reflects books nothing and touches no symbol. -/
def fill (intake : Intake) (order : Order) (tradeId : String)
    (quantity price cumQty fee : Decimal) (tsNs : Nanos) : Option Intake :=
  match checkpointFill config intake.process.memory intake.process.store order tradeId quantity
      price cumQty fee tsNs with
  | .error _ => none
  | .ok effects =>
      let after := intake.process.play effects
      let booked := decide (after.memory.portfolio.fillsApplied ≠
        intake.process.memory.portfolio.fillsApplied)
      some { intake with
        process := after
        pass := intake.pass.map fun pass =>
          if booked then { pass with touched := order.symbol :: pass.touched } else pass }

def read (intake : Intake) (snapshot : VenueAccountState) : Option Intake :=
  if intake.pass.isNone then some { intake with pass := some { snapshot := snapshot } } else none

/-- The partitions that waited before a pass and no longer do after it, on a symbol that a
fill touched since its read. -/
def postedStale (pass : PassRead) (before after : Portfolio) : List PartitionKey :=
  before.positions.keys.filter fun k =>
    decide (k.2 ∈ pass.touched) && awaits before.positions k && !awaits after.positions k

def heal (intake : Intake) (fills : List ReconciliationFill) (cash : Option CashCorrection)
    (tsNs : Nanos) : Option Intake :=
  intake.pass.bind fun pass =>
    match checkpointHeal config intake.process.memory intake.process.store fills cash
        (some pass.snapshot) tsNs with
    | .error _ => none
    | .ok effects =>
        let after := intake.process.play effects
        some
          { process := after
            pass := none
            stale := intake.stale ++
              postedStale pass intake.process.memory.portfolio after.memory.portfolio }

def step (intake : Intake) : IntakeStep → Option Intake
  | .fill order tradeId quantity price cumQty fee tsNs =>
      intake.fill config order tradeId quantity price cumQty fee tsNs
  | .read snapshot => intake.read snapshot
  | .heal fills cash tsNs => intake.heal config fills cash tsNs

def machine : Machine Intake IntakeStep where
  step := step config

end Intake

/-! ## What one ingest posts -/

section Ingest

variable {portfolio : Portfolio} {snapshot : VenueAccountState}

theorem shareOut_length (amount weight : Decimal) {weights : List Decimal} (some_ : weights ≠ []) :
    (Portfolio.shareOut amount weight weights).length = weights.length := by
  cases weights with
  | nil => exact absurd rfl some_
  | cons first rest =>
      unfold Portfolio.shareOut
      simp

theorem share_length (bucket : Decimal) (across : List Position) :
    (Portfolio.share bucket across).length = across.length := by
  unfold Portfolio.share
  simp only
  split
  · exact List.length_map _
  · rename_i exposed
    rw [shareOut_length, List.length_map]
    intro none_
    rw [none_] at exposed
    exact exposed rfl

theorem exists_mem_zip {α β : Type*} {xs : List α} {ys : List β} (same : ys.length = xs.length)
    {x : α} (member : x ∈ xs) : ∃ y, (x, y) ∈ xs.zip ys := by
  induction xs generalizing ys with
  | nil => cases member
  | cons first rest ih =>
      cases ys with
      | nil => cases same
      | cons y more =>
          rcases List.mem_cons.mp member with rfl | later
          · exact ⟨y, List.mem_cons_self⟩
          · obtain ⟨z, there⟩ := ih (Nat.succ.inj same) later
            exact ⟨z, List.mem_cons_of_mem _ there⟩

variable (snapshot) in
/-- Every filed partition is beside some share. -/
theorem mem_venueShares {k : PartitionKey} {position : Position}
    (there : portfolio.positions.get k = some position) :
    ∃ share, (position, share) ∈ portfolio.venueShares snapshot := by
  have value : position ∈ portfolio.positions.values := (Dict.mem_values _ _).mpr ⟨k, there⟩
  have across : position ∈ portfolio.across position.symbol :=
    List.mem_filter.mpr ⟨value, by simp⟩
  have symbol : position.symbol ∈
      (portfolio.positions.values.map Position.symbol).eraseDups :=
    List.mem_eraseDups.mpr (List.mem_map_of_mem value)
  obtain ⟨share, zipped⟩ := exists_mem_zip (share_length _ _) across
  unfold Portfolio.venueShares
  simp only [List.mem_flatMap]
  exact ⟨share, position.symbol, symbol, zipped⟩

/-- Shares are of the filed partitions. -/
theorem venueShares_held (filed : Filed portfolio.positions) {share : Position × Decimal}
    (member : share ∈ portfolio.venueShares snapshot) :
    portfolio.positions.get (keyOf share.1) = some share.1 := by
  unfold Portfolio.venueShares at member
  simp only [List.mem_flatMap] at member
  obtain ⟨symbol, _, zipped⟩ := member
  exact filed.get_of_mem (List.mem_filter.mp (List.of_mem_zip zipped).1).1

/-- Whether a share is written onto its partition. -/
def Written (carried : Symbol → Bool) (share : Position × Decimal) : Prop :=
  ¬ (share.1.isolatedCollateral = none ∧ carried share.1.symbol = false) ∧
    share.1.isolatedCollateral ≠ some share.2

theorem awaits_postShare (carried : Symbol → Bool) (state : Portfolio × List PartitionKey)
    (share : Position × Decimal) (k : PartitionKey) :
    awaits (Portfolio.postShare carried state share).1.positions k = true ↔
      awaits state.1.positions k = true ∧ ¬ (keyOf share.1 = k ∧ Written carried share) := by
  unfold Portfolio.postShare Written
  simp only
  split
  · rename_i kept
    simp [kept]
  · rename_i moves
    split
    · rename_i there
      simp [there]
    · rename_i other
      unfold awaits
      rw [Dict.get_set]
      by_cases here : keyOf share.1 = k
      · simp only [here, if_true, Option.any_some, Option.isNone_some, Bool.false_eq_true, true_and,
          false_iff, not_and, not_not]
        exact fun _ wrong => other (wrong fun unposted apart => moves ⟨unposted, apart⟩)
      · simp [here]

theorem awaits_postShares (carried : Symbol → Bool) (shares : List (Position × Decimal))
    (state : Portfolio × List PartitionKey) (k : PartitionKey) :
    awaits (shares.foldl (Portfolio.postShare carried) state).1.positions k = true ↔
      awaits state.1.positions k = true ∧
        ¬ ∃ share ∈ shares, keyOf share.1 = k ∧ Written carried share := by
  induction shares generalizing state with
  | nil => simp
  | cons share rest ih =>
      rw [List.foldl_cons, ih, awaits_postShare]
      simp only [List.mem_cons, exists_eq_or_imp, not_or, and_assoc]

/-- **The ingest leaves a partition waiting exactly where it does not carry it.** -/
theorem ingest_awaits_iff (filed : Filed portfolio.positions) (k : PartitionKey) :
    awaits (portfolio.ingestCollateral snapshot).1.positions k = true ↔
      awaits portfolio.positions k = true ∧
        Portfolio.venueSize snapshot k.2 ≠ portfolio.accountNet k.2 := by
  unfold Portfolio.ingestCollateral
  simp only
  rw [awaits_postShares]
  refine and_congr_right fun waits => ?_
  unfold awaits at waits
  rw [Option.any_eq_true] at waits
  obtain ⟨position, there, unposted⟩ := waits
  have keyed := (filed k position there).1
  have symbol : position.symbol = k.2 := congrArg Prod.snd keyed
  rw [Option.isNone_iff_eq_none] at unposted
  constructor
  · intro unwritten carried
    obtain ⟨share, member⟩ := mem_venueShares snapshot there
    refine unwritten ⟨(position, share), member, keyed, ?_, ?_⟩
    · rintro ⟨_, apart⟩
      simp only [symbol, carried, decide_true] at apart
      cases apart
    · simp [unposted]
  · rintro apart ⟨share, member, same, written, _⟩
    have is := venueShares_held filed member
    rw [same, there] at is
    cases is
    refine written ⟨unposted, ?_⟩
    rw [symbol]
    exact decide_eq_false apart

end Ingest

/-! ## What one pass posts -/

section Pass

variable {config : Config} {process : Process} {fills : List ReconciliationFill}
  {cash : Option CashCorrection} {snapshot : VenueAccountState} {tsNs : Nanos}
  {effects : List Effect}

/-- Projecting a batch files new partitions only. -/
theorem project_get {portfolio : Portfolio} {changes : List LedgerChange}
    (held : ∀ change ∈ changes, change.filed = (portfolio.positions.get change.key).isSome)
    {k : PartitionKey} (filed : (portfolio.positions.get k).isSome = true) :
    (changes.foldl Portfolio.project portfolio).positions.get k = portfolio.positions.get k := by
  suffices walk : ∀ (rest : List LedgerChange) (acc : Portfolio),
      (∀ change ∈ rest, change ∈ changes) →
      (rest.foldl Portfolio.project acc).positions.get k = acc.positions.get k from
    walk changes portfolio fun _ member => member
  intro rest
  induction rest with
  | nil => exact fun _ _ => rfl
  | cons change rest ih =>
      intro acc members
      rw [List.foldl_cons, ih _ fun other there => members other (List.mem_cons_of_mem _ there)]
      unfold Portfolio.project
      split
      · rfl
      · rename_i unfiled
        refine Dict.get_set_ne _ _ fun same => unfiled ?_
        rw [held change (members change List.mem_cons_self), same, filed]

/-- A batch that changes nothing leaves every partition as it was. -/
theorem applyFills_unmoved {portfolio folded : Portfolio} {pieces : List Piece}
    {changes : List LedgerChange}
    (applied : portfolio.applyFills config pieces = .ok (folded, changes))
    (unmoved : ∀ change ∈ changes, change.changes = []) (k : PartitionKey) :
    folded.positions.get k = portfolio.positions.get k := by
  induction pieces generalizing portfolio changes with
  | nil =>
      cases applied
      rfl
  | cons piece rest ih =>
      obtain ⟨fill, side⟩ := piece
      simp only [Portfolio.applyFills] at applied
      split at applied
      · cases applied
      · rename_i middle change first
        split at applied
        · cases applied
        · rename_i last later second
          cases applied
          rw [ih second fun other there => unmoved other (List.mem_cons_of_mem _ there)]
          obtain ⟨_, filed, _, positions, ⟨_, is, _⟩ | ⟨_, _, moves, _⟩⟩ :=
            Portfolio.applyFill_cases first
          · rw [positions]
            split
            · rename_i there
              rw [filed, Option.isSome_iff_exists] at there
              obtain ⟨position, there⟩ := there
              have same : change.position = position := by
                rw [is]
                unfold Portfolio.partition
                rw [there]
                rfl
              rw [same, Dict.set_get_self _ there]
            · rfl
          · rw [unmoved change List.mem_cons_self] at moves
            exact absurd moves.symm (Position.booked_ne_nil _ _ _)

theorem awaits_congr {first second : Dict PartitionKey Position} {k : PartitionKey}
    (same : first.get k = second.get k) : awaits first k = awaits second k := by
  unfold awaits
  rw [same]

/-- What the heals of a pass that wrote nothing left: every partition as it was. -/
theorem applied_isEmpty {portfolio folded : Portfolio} {changes : List LedgerChange}
    (filed : Filed portfolio.positions)
    (applied : portfolio.applyFills config (fills.map healPiece) = .ok (folded, changes))
    (none_ : (((fills.zip changes).filter fun pair => !pair.2.changes.isEmpty).map
      fun pair => pair.1.bookable.eventId).isEmpty = true) (k : PartitionKey) :
    folded.positions.get k = portfolio.positions.get k := by
  refine applyFills_unmoved applied (fun change there => ?_) k
  have lengths : fills.length = changes.length := by
    have keys := congrArg List.length (applyFills_keys filed applied)
    simp only [List.length_map] at keys
    exact keys.symm
  rw [List.isEmpty_iff, List.map_eq_nil_iff, List.filter_eq_nil_iff] at none_
  obtain ⟨fill, zipped⟩ : ∃ fill, (fill, change) ∈ fills.zip changes := by
    obtain ⟨fill, swapped⟩ := exists_mem_zip lengths there
    rw [← List.zip_swap, List.mem_map] at swapped
    obtain ⟨pair, member, is⟩ := swapped
    cases is
    exact ⟨_, member⟩
  simpa using none_ (fill, change) zipped

/-- **What a pass leaves waiting**, of the partitions that waited before it. -/
theorem heal_awaits_iff (filed : Filed process.memory.portfolio.positions)
    (healed : checkpointHeal config process.memory process.store fills cash (some snapshot) tsNs =
      .ok effects) :
    ∃ folded changes,
      process.memory.portfolio.applyFills config (fills.map healPiece) = .ok (folded, changes) ∧
      Filed (process.play effects).memory.portfolio.positions ∧
      ∀ k, awaits process.memory.portfolio.positions k = true →
        (awaits (process.play effects).memory.portfolio.positions k = true ↔
          awaits folded.positions k = true ∧
            Portfolio.venueSize snapshot k.2 ≠ folded.accountNet k.2) := by
  have pieces : (fills.map fun fill => (fill.bookable, fill.side)) = fills.map healPiece := rfl
  cases applied : process.memory.portfolio.applyFills config (fills.map healPiece) with
  | error violation =>
      unfold checkpointHeal Portfolio.applyHeal at healed
      split at healed
      · cases healed
      · rw [pieces, applied] at healed
        cases healed
  | ok pair =>
      obtain ⟨folded, changes⟩ := pair
      have fold := applyFills_folded filed applied
      have posted := ingestCollateral_posted snapshot fold.filed
      refine ⟨folded, changes, rfl, ?_⟩
      by_cases nothing : (((fills.zip changes).filter fun pair => !pair.2.changes.isEmpty).map
          fun pair => pair.1.bookable.eventId).isEmpty && cash.isNone &&
          (folded.ingestCollateral snapshot).2.isEmpty
      · have heal : process.memory.portfolio.applyHeal config fills cash (some snapshot) =
            .ok none := by
          simp only [Portfolio.applyHeal, Portfolio.ingest, pieces, applied, nothing, if_true]
        unfold checkpointHeal at healed
        rw [heal] at healed
        split at healed
        · cases healed
        cases healed
        rw [Bool.and_eq_true, Bool.and_eq_true, List.isEmpty_iff (l := (folded.ingestCollateral snapshot).2)] at nothing
        obtain ⟨⟨unmoved, _⟩, uningested⟩ := nothing
        refine ⟨filed, fun k waits => ?_⟩
        have before : awaits folded.positions k = true := by
          rw [awaits_congr (applied_isEmpty filed applied unmoved k)]
          exact waits
        have after : awaits (folded.ingestCollateral snapshot).1.positions k = true := by
          have off : k ∉ (folded.ingestCollateral snapshot).2 := by
            rw [uningested]
            exact List.not_mem_nil
          rw [awaits_congr (posted.off k off)]
          exact before
        exact ⟨fun _ => (ingest_awaits_iff fold.filed k).mp after, fun _ => waits⟩
      · have heal : process.memory.portfolio.applyHeal config fills cash (some snapshot) =
            .ok (some ((folded.ingestCollateral snapshot).1.correct changes cash,
              ⟨changes, ((fills.zip changes).filter fun pair => !pair.2.changes.isEmpty).map
                fun pair => pair.1.bookable.eventId, (folded.ingestCollateral snapshot).2⟩)) := by
          simp only [Portfolio.applyHeal, Portfolio.ingest, pieces, applied, nothing]
          rfl
        unfold checkpointHeal at healed
        rw [heal] at healed
        split at healed
        · cases healed
        cases healed
        have positions := (correct_stamps (folded.ingestCollateral snapshot).1 changes cash).2.2.2
        have awaiting : Awaiting ((folded.ingestCollateral snapshot).1.correct changes cash)
            changes := by
          refine ⟨by rw [positions]; exact posted.filed, fold.settled, fun change there => ?_⟩
          rw [positions, fold.held change there, posted.same]
        refine ⟨?_, fun k waits => ?_⟩
        · show Filed (changes.foldl Portfolio.project _).positions
          rw [awaiting.project]
          exact awaiting.filed.setAll fun row member => by
            obtain ⟨change, held, rfl⟩ := List.mem_map.mp member
            exact awaiting.current_settled held
        · have there : (((folded.ingestCollateral snapshot).1.correct changes cash).positions.get
              k).isSome = true := by
            rw [positions, posted.same, fold.same]
            unfold awaits at waits
            rw [Option.any_eq_true] at waits
            obtain ⟨position, is, _⟩ := waits
            rw [is]
            rfl
          have same : (changes.foldl Portfolio.project
              ((folded.ingestCollateral snapshot).1.correct changes cash)).positions.get k =
              (folded.ingestCollateral snapshot).1.positions.get k := by
            rw [project_get awaiting.held there, positions]
          rw [← ingest_awaits_iff fold.filed]
          exact Eq.to_iff (congrArg (· = true) (awaits_congr same))

/-- Booking a fill keeps every partition under its own key. -/
theorem checkpointFill_filed {order : Order} {tradeId : String}
    {quantity price cumQty fee : Decimal} (filed : Filed process.memory.portfolio.positions)
    (booked : checkpointFill config process.memory process.store order tradeId quantity price
      cumQty fee tsNs = .ok effects) :
    Filed (process.play effects).memory.portfolio.positions := by
  unfold checkpointFill at booked
  split at booked
  · cases booked
  cases cut : piecesOf config order tradeId quantity price cumQty fee with
  | error fault =>
      rw [cut] at booked
      cases booked
  | ok pieces =>
      rw [cut] at booked
      have books := commitFolds_books booked
      unfold bookPieces at books
      cases folds : process.memory.portfolio.applyFills config pieces with
      | error violation =>
          rw [folds] at books
          cases books
      | ok pair =>
          obtain ⟨folded, changes⟩ := pair
          rw [folds] at books
          have fold := applyFills_folded filed folds
          rw [← Except.ok.inj books, fold.project]
          exact fold.toAwaiting.filed.setAll fun row member => by
            obtain ⟨change, held, rfl⟩ := List.mem_map.mp member
            exact fold.toAwaiting.current_settled held

end Pass

/-! ## Runs -/

/-- What a pass has to find, once its own heals are booked, on each partition that waits
for its bucket and whose symbol a fill touched since the read: that it still waits, and
that the symbol's size is not the snapshot's. -/
def FindsApart (config : Config) (intake : Intake) : IntakeStep → Prop
  | .fill .. | .read _ => True
  | .heal fills _ _ => ∀ pass folded changes, intake.pass = some pass →
      intake.process.memory.portfolio.applyFills config (fills.map healPiece) =
        .ok (folded, changes) →
      ∀ k, k.2 ∈ pass.touched → awaits intake.process.memory.portfolio.positions k = true →
        awaits folded.positions k = true ∧
          Portfolio.venueSize pass.snapshot k.2 ≠ folded.accountNet k.2

section Run

variable {config : Config} {intake after : Intake} {step : IntakeStep}

/-- A pass only ever adds to what was posted stale. -/
theorem stale_grows (stepped : intake.step config step = some after) :
    ∃ more, after.stale = intake.stale ++ more := by
  cases step with
  | fill order tradeId quantity price cumQty fee tsNs =>
      simp only [Intake.step, Intake.fill] at stepped
      split at stepped
      · cases stepped
      · cases stepped
        exact ⟨[], (List.append_nil _).symm⟩
  | read snapshot =>
      simp only [Intake.step, Intake.read] at stepped
      split at stepped
      · cases stepped
        exact ⟨[], (List.append_nil _).symm⟩
      · cases stepped
  | heal fills cash tsNs =>
      simp only [Intake.step, Intake.heal, Option.bind_eq_some_iff] at stepped
      obtain ⟨pass, _, stepped⟩ := stepped
      split at stepped
      · cases stepped
      · cases stepped
        exact ⟨_, rfl⟩

/-- **One step** keeps the book filed, and posts nothing stale exactly where its pass
finds the touched symbols apart. -/
theorem step_stale_iff (filed : Filed intake.process.memory.portfolio.positions)
    (stepped : intake.step config step = some after) :
    Filed after.process.memory.portfolio.positions ∧
      (after.stale = intake.stale ↔ FindsApart config intake step) := by
  cases step with
  | fill order tradeId quantity price cumQty fee tsNs =>
      simp only [Intake.step, Intake.fill] at stepped
      split at stepped
      · cases stepped
      · rename_i effects booked
        cases stepped
        exact ⟨checkpointFill_filed filed booked, Iff.intro (fun _ => trivial) fun _ => rfl⟩
  | read snapshot =>
      simp only [Intake.step, Intake.read] at stepped
      split at stepped
      · cases stepped
        exact ⟨filed, Iff.intro (fun _ => trivial) fun _ => rfl⟩
      · cases stepped
  | heal fills cash tsNs =>
      simp only [Intake.step, Intake.heal, Option.bind_eq_some_iff] at stepped
      obtain ⟨pass, under, stepped⟩ := stepped
      split at stepped
      · cases stepped
      · rename_i effects healed
        cases stepped
        obtain ⟨folded, changes, applied, filedAfter, leaves⟩ := heal_awaits_iff filed healed
        refine ⟨filedAfter, ?_⟩
        simp only [FindsApart, under, applied, List.append_right_eq_self, Intake.postedStale,
          List.filter_eq_nil_iff, Bool.and_eq_true, decide_eq_true_eq, Bool.not_eq_true',
          not_and, Bool.not_eq_false]
        constructor
        · intro none_ pass' folded' changes' same is k touched waits
          cases same
          cases is
          obtain ⟨position, there, _⟩ : ∃ position,
              intake.process.memory.portfolio.positions.get k = some position ∧
              position.isolatedCollateral.isNone = true := by
            unfold awaits at waits
            rwa [Option.any_eq_true] at waits
          exact (leaves k waits).mp
            (none_ k ((Dict.mem_keys _ _).mpr ⟨position, there⟩) ⟨touched, waits⟩)
        · rintro apart k _ ⟨touched, waits⟩
          exact (leaves k waits).mpr (apart pass folded changes rfl rfl k touched waits)

end Run

/-- **When no stale snapshot posts a bucket.**  Over every run of fills and passes, none
of the passes posts a bucket from a snapshot older than a fill on its symbol if and only
if each finds the partitions of the touched symbols apart from what its snapshot says. -/
theorem no_stale_post_iff {config : Config} {start last : Intake} {steps : List IntakeStep}
    (filed : Filed start.process.memory.portfolio.positions) (clean : start.stale = [])
    (ran : (Intake.machine config).run start steps = some last) :
    last.stale = [] ↔ (Intake.machine config).Meets (FindsApart config) start steps := by
  induction steps generalizing start with
  | nil =>
      cases ran
      exact Iff.intro (fun _ => trivial) fun _ => clean
  | cons step rest ih =>
      obtain ⟨next, stepped, tail⟩ := Machine.run_cons_eq_some.mp ran
      obtain ⟨filedNext, here⟩ := step_stale_iff filed stepped
      have grows : ∃ more, last.stale = next.stale ++ more := by
        refine Machine.run_induct (fun reached => ∃ more, reached.stale = next.stale ++ more)
          ?_ ⟨[], (List.append_nil _).symm⟩ tail
        rintro reached label after ⟨more, is⟩ stepped
        obtain ⟨again, added⟩ := stale_grows stepped
        exact ⟨more ++ again, by rw [added, is, List.append_assoc]⟩
      rw [clean] at here
      constructor
      · intro none_
        obtain ⟨more, is⟩ := grows
        have cleanNext : next.stale = [] := by
          rw [none_] at is
          exact (List.append_eq_nil_iff.mp is.symm).1
        refine ⟨here.mp cleanNext, fun reached stepped' => ?_⟩
        cases stepped.symm.trans stepped'
        exact (ih filedNext cleanNext tail).mp none_
      · rintro ⟨apart, meets⟩
        have cleanNext := here.mpr apart
        exact (ih filedNext cleanNext tail).mpr (meets next stepped)

namespace Sample

/-- A live account; every symbol is isolated at 1x unless configured. -/
def isolatedLive : Config := { spec := { accountId := "live" } }

/-- The operator's own partition, long one BTC at a hundred with 20 posted behind it. -/
def postedOne : Process where
  memory :=
    { cache := {}
      portfolio :=
        { account := { accountId := "live", genesisCollateral := 0, genesisTsNs := 0, cash := 500 }
          opened := true
          positions := Dict.empty.set (some operator, "BTC")
            { owner := some operator, symbol := "BTC", signedSize := 1, entryPrice := 100,
              isolatedCollateral := some 20 } } }
  store := Store.fresh

/-- What the venue said of it. -/
def postedRead : VenueAccountState where
  equity := 500
  cashDecimals := 6
  positions :=
    [{ symbol := "BTC", signedSize := 1, entryPrice := some 100, notional := 100,
       unrealizedPnl := 0, isolatedCollateral := some 20 }]

def oneMore (cloid : Cloid) (side : Side) : Order where
  cloid := cloid
  strategyId := operator
  signalId := ⟨operator, "BTC", 1⟩
  symbol := "BTC"
  side := side
  quantity := 1
  orderType := .market

/-- A buy and a sell of one BTC, both booked between the read and the write. -/
def addAndReduce : List IntakeStep :=
  [.read postedRead, .fill (oneMore "0xa1" .buy) "1" 1 110 1 0 1,
    .fill (oneMore "0xa2" .sell) "1" 1 110 1 0 2, .heal [] none 3]

theorem postedOne_filed : Filed postedOne.memory.portfolio.positions := by
  have settled : Position.Settled
      { owner := some operator, symbol := "BTC", signedSize := 1, entryPrice := 100,
        isolatedCollateral := some 20 } := fun flat => absurd flat one_ne_zero
  exact Filed.empty.set settled

/-- The buy alone leaves the sizes apart: the pass posts nothing stale. -/
theorem add_alone_waits : ∃ last,
    (Intake.machine isolatedLive).run { process := postedOne }
      [.read postedRead, .fill (oneMore "0xa1" .buy) "1" 1 110 1 0 1, .heal [] none 3] =
        some last ∧
    (Intake.machine isolatedLive).Meets (FindsApart isolatedLive) { process := postedOne }
      [.read postedRead, .fill (oneMore "0xa1" .buy) "1" 1 110 1 0 1, .heal [] none 3] := by
  have ends : ((Intake.machine isolatedLive).run { process := postedOne }
      [.read postedRead, .fill (oneMore "0xa1" .buy) "1" 1 110 1 0 1, .heal [] none 3]).map
        Intake.stale = some [] := by decide +kernel
  obtain ⟨last, ran, none_⟩ := Option.map_eq_some_iff.mp ends
  exact ⟨last, ran, (no_stale_post_iff postedOne_filed rfl ran).mp none_⟩

/-- **The size is back where it was, and the old bucket is posted**, two fills late. -/
theorem add_and_reduce_posted : ∃ last,
    (Intake.machine isolatedLive).run { process := postedOne } addAndReduce = some last ∧
      last.stale = [(some operator, "BTC")] ∧
      (last.process.memory.portfolio.positions.get (some operator, "BTC")).map
        Position.isolatedCollateral = some (some 20) := by
  have ends : ((Intake.machine isolatedLive).run { process := postedOne } addAndReduce).map
      (fun last => (last.stale,
        (last.process.memory.portfolio.positions.get (some operator, "BTC")).map
          Position.isolatedCollateral)) =
      some ([(some operator, "BTC")], some (some 20)) := by decide +kernel
  obtain ⟨last, ran, is⟩ := Option.map_eq_some_iff.mp ends
  simp only [Prod.mk.injEq] at is
  exact ⟨last, ran, is⟩

end Sample

end Tickwright.Engine
