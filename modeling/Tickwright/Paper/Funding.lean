/-
# Paper.Funding -- the venue settles every funding boundary it crosses

`run_funding` sleeps until the first boundary after the instant it has settled
through, reads the basis once, and publishes one accrual for each boundary up to
the clock and each held symbol that owes or is owed something.  The clock may be
far past the boundary it waited for, may stand on one, and moves on while accruals
are being published.

A wake-up's `FundingSpan` keeps what it read and what it published.  The spans of a
life tile the time from its start: each begins where the one before ended.

* `settles_once`: of every symbol the boundaries published strictly increase, and a
  wake-up that read the symbol with a payment due publishes exactly the boundaries
  of its span, each with that payment.
* `span_settles`: once its publishes return, a wake-up ends in finitely many steps.
-/
import Tickwright.Domain.Instrument
import Tickwright.Domain.Venue
import Tickwright.Theory.Dict
import Tickwright.Theory.Grid
import Tickwright.Theory.Machine

namespace Tickwright.Paper

open Tickwright.Domain Tickwright.Theory

set_option autoImplicit false

/-! ## What is computed at a wake-up -/

/-- An instrument's spec with the rate that funding alone computes with. -/
structure FundedSpec extends InstrumentSpec where
  fundingRate : Decimal := 0

/-- `funding_amount`: a long at a positive rate pays. -/
def fundingAmount (signedSize price : Decimal) (spec : FundedSpec) : Decimal :=
  -signedSize * price * spec.fundingRate

/-- `funding_boundaries`: the multiples of the interval in `(after, through]`. -/
def fundingBoundaries (afterNs throughNs intervalNs : Nanos) : List Nanos :=
  let first := afterNs / intervalNs + 1
  let last := throughNs / intervalNs
  (List.range (last + 1 - first).toNat).map fun (n : ℕ) => (first + n) * intervalNs

/-- What one symbol's accrual is computed from. -/
structure FundingBasis where
  symbol : Symbol
  signedSize : Decimal
  price : Decimal
  spec : FundedSpec

def FundingBasis.amount (entry : FundingBasis) : Decimal :=
  fundingAmount entry.signedSize entry.price entry.spec

/-- What the venue reads at a wake-up: the ledger's account net and its own ticks. -/
structure FundingReads where
  accountNet : Dict Symbol Decimal
  latestTick : Dict Symbol MarketTick

structure FundingConfig where
  accountId : String
  specs : Dict Symbol FundedSpec
  intervalNs : Nanos
  positive : 0 < intervalNs

/-- `_funding_basis`: the symbols the ledger names that the venue can price. -/
def fundingBasis (config : FundingConfig) (reads : FundingReads) : List FundingBasis :=
  reads.accountNet.entries.filterMap fun (symbol, signedSize) =>
    match reads.latestTick.get symbol, config.specs.get symbol with
    | some tick, some spec => some ⟨symbol, signedSize, tick.price, spec⟩
    | _, _ => none

/-- The payment of one entry at one boundary; a zero accrues nothing at all. -/
def FundingBasis.accrual (boundaryNs : Nanos) (entry : FundingBasis) : Option FundingAccrual :=
  if entry.amount = 0 then none else some ⟨entry.symbol, boundaryNs, entry.amount⟩

/-- An accrual as it is published: the payment, when it was built, and for whom. -/
structure PostedAccrual where
  fact : FundingAccrual
  tsInit : Nanos
  accountId : String
deriving DecidableEq

/-! ## The loop -/

/-- One wake-up: the span it settles, what it read, and what it has published. -/
structure FundingSpan where
  afterNs : Nanos
  throughNs : Nanos
  reads : FundingReads
  posted : List PostedAccrual := []

namespace FundingSpan

/-- Every payment of the span, boundary by boundary. -/
def due (config : FundingConfig) (span : FundingSpan) : List FundingAccrual :=
  (fundingBoundaries span.afterNs span.throughNs config.intervalNs).flatMap fun boundaryNs =>
    (fundingBasis config span.reads).filterMap (FundingBasis.accrual boundaryNs)

/-- What it has published so far. -/
def facts (span : FundingSpan) : List FundingAccrual := span.posted.map PostedAccrual.fact

def post (config : FundingConfig) (span : FundingSpan) (nowNs : Nanos) (fact : FundingAccrual) :
    FundingSpan :=
  { span with posted := span.posted ++ [⟨fact, nowNs, config.accountId⟩] }

end FundingSpan

/-- Where the loop stands: asleep, inside a publish with more payments to come, or
ended by a publish that raised. -/
inductive FundingStage
  | sleeping (settledThroughNs : Nanos)
  | publishing (span : FundingSpan) (rest : List FundingAccrual)
  | broken (span : FundingSpan)

/-- The clock, the loop, and the wake-ups it is done with. -/
structure FundingLife where
  nowNs : Nanos
  stage : FundingStage
  spans : List FundingSpan := []

def FundingLife.start (startNs : Nanos) : FundingLife where
  nowNs := startNs
  stage := .sleeping startNs

/-- The loop goes on to its next await: the next publish, or the next sleep. -/
def FundingLife.goOn (config : FundingConfig) (life : FundingLife) (span : FundingSpan) :
    List FundingAccrual → FundingLife
  | [] => { life with stage := .sleeping span.throughNs, spans := life.spans ++ [span] }
  | fact :: rest => { life with stage := .publishing (span.post config life.nowNs fact) rest }

/-- One move: the clock goes on, the loop wakes and reads its basis, a publish
returns, or it raises. -/
inductive FundingMove
  | pass (ns : ℕ)
  | wake (reads : FundingReads)
  | published
  | fault

/-- **`run_funding` and the clock.** -/
def fundingLoop (config : FundingConfig) : Machine FundingLife FundingMove where
  step life move :=
    match move with
    | .pass ns => some { life with nowNs := life.nowNs + ns }
    | .wake reads =>
        match life.stage with
        | .sleeping settledThroughNs =>
            if settledThroughNs / config.intervalNs * config.intervalNs + config.intervalNs ≤
                life.nowNs then
              let span : FundingSpan := ⟨settledThroughNs, life.nowNs, reads, []⟩
              some (life.goOn config span (span.due config))
            else none
        | .publishing _ _ | .broken _ => none
    | .published =>
        match life.stage with
        | .publishing span rest => some (life.goOn config span rest)
        | .sleeping _ | .broken _ => none
    | .fault =>
        match life.stage with
        | .publishing span _ => some { life with stage := .broken span }
        | .sleeping _ | .broken _ => none

/-! ## The basis and the span -/

variable {config : FundingConfig} {reads : FundingReads} {span : FundingSpan}

theorem fundingBoundaries_eq (afterNs throughNs intervalNs : Nanos) :
    fundingBoundaries afterNs throughNs intervalNs = Grid.slotsIn intervalNs afterNs throughNs := by
  have size : throughNs / intervalNs + 1 - (afterNs / intervalNs + 1) =
      throughNs / intervalNs - afterNs / intervalNs := by ring
  simp only [fundingBoundaries, Grid.slotsIn, size]

/-- The basis names a symbol once, as the ledger does. -/
theorem fundingBasis_nodup (config : FundingConfig) (reads : FundingReads) :
    ((fundingBasis config reads).map FundingBasis.symbol).Nodup := by
  refine List.Sublist.nodup ?_ reads.accountNet.nodup
  rw [fundingBasis, List.map_filterMap]
  generalize reads.accountNet.entries = entries
  induction entries with
  | nil => exact List.Sublist.slnil
  | cons entry rest ih =>
      obtain ⟨symbol, signedSize⟩ := entry
      cases tick : reads.latestTick.get symbol with
      | none => simpa [List.filterMap_cons, tick] using ih.cons symbol
      | some _ =>
          cases spec : config.specs.get symbol with
          | none => simpa [List.filterMap_cons, tick, spec] using ih.cons symbol
          | some _ => simpa [List.filterMap_cons, tick, spec] using ih.cons_cons symbol

/-- **What the basis holds of a symbol** is the ledger's net at the last trade. -/
theorem mem_fundingBasis {symbol : Symbol} {signedSize : Decimal} {tick : MarketTick}
    {spec : FundedSpec} (held : reads.accountNet.get symbol = some signedSize)
    (traded : reads.latestTick.get symbol = some tick)
    (specified : config.specs.get symbol = some spec) :
    ⟨symbol, signedSize, tick.price, spec⟩ ∈ fundingBasis config reads := by
  refine List.mem_filterMap.mpr ⟨(symbol, signedSize), (Dict.get_eq_some _ _ _).mp held, ?_⟩
  simp [traded, specified]

/-- The payment due to a symbol at each boundary of a wake-up. -/
def paid (basis : List FundingBasis) (symbol : Symbol) : Option Decimal :=
  (basis.find? fun entry => entry.symbol = symbol).bind fun entry =>
    if entry.amount = 0 then none else some entry.amount

theorem paid_of_mem {basis : List FundingBasis} {entry : FundingBasis}
    (nodup : (basis.map FundingBasis.symbol).Nodup) (member : entry ∈ basis)
    (owes : entry.amount ≠ 0) : paid basis entry.symbol = some entry.amount := by
  induction basis with
  | nil => cases member
  | cons first rest ih =>
      rw [List.map_cons, List.nodup_cons] at nodup
      rcases List.mem_cons.mp member with rfl | there
      · simp [paid, owes]
      · have apart : first.symbol ≠ entry.symbol := fun same =>
          nodup.1 (same ▸ List.mem_map_of_mem there)
        have found := ih nodup.2 there
        simpa [paid, List.find?_cons, apart] using found

/-- At one boundary a symbol gets its payment once, or nothing. -/
theorem accruals_of {basis : List FundingBasis} (nodup : (basis.map FundingBasis.symbol).Nodup)
    (symbol : Symbol) (boundaryNs : Nanos) :
    (basis.filterMap (FundingBasis.accrual boundaryNs)).filter (fun fact => fact.symbol = symbol) =
      ((paid basis symbol).map fun amount =>
        (⟨symbol, boundaryNs, amount⟩ : FundingAccrual)).toList := by
  induction basis with
  | nil => rfl
  | cons first rest ih =>
      rw [List.map_cons, List.nodup_cons] at nodup
      have ih := ih nodup.2
      by_cases own : first.symbol = symbol
      · have others : (rest.filterMap (FundingBasis.accrual boundaryNs)).filter
            (fun fact => fact.symbol = symbol) = [] := by
          refine List.filter_eq_nil_iff.mpr fun fact member => ?_
          obtain ⟨entry, there, made⟩ := List.mem_filterMap.mp member
          have named : fact.symbol = entry.symbol := by
            simp only [FundingBasis.accrual] at made
            split at made
            · cases made
            · cases made; rfl
          simp only [decide_eq_true_eq]
          intro same
          exact nodup.1 (by rw [own, ← same, named]; exact List.mem_map_of_mem there)
        by_cases owes : first.amount = 0
        · simp [FundingBasis.accrual, paid, own, owes, others]
        · simp [FundingBasis.accrual, paid, own, owes, others]
      · have same : paid (first :: rest) symbol = paid rest symbol := by
          simp [paid, own]
        rw [same, ← ih]
        by_cases owes : first.amount = 0
        · simp [FundingBasis.accrual, owes]
        · simp [FundingBasis.accrual, owes, own]

/-- **What a wake-up owes one symbol**: its payment at every boundary of the span,
or nothing. -/
theorem due_of (symbol : Symbol) :
    (span.due config).filter (fun fact => fact.symbol = symbol) =
      match paid (fundingBasis config span.reads) symbol with
      | none => []
      | some amount => (Grid.slotsIn config.intervalNs span.afterNs span.throughNs).map
          fun boundaryNs => ⟨symbol, boundaryNs, amount⟩ := by
  rw [FundingSpan.due, fundingBoundaries_eq, List.filter_flatMap]
  simp only [accruals_of (fundingBasis_nodup config span.reads) symbol]
  cases paid (fundingBasis config span.reads) symbol with
  | none => simp
  | some amount => exact List.map_eq_flatMap.symm

/-! ## The spans of a life -/

/-- The wake-up under way. -/
def FundingLife.current (life : FundingLife) : List FundingSpan :=
  match life.stage with
  | .sleeping _ => []
  | .publishing span _ | .broken span => [span]

/-- Every wake-up so far. -/
def FundingLife.allSpans (life : FundingLife) : List FundingSpan := life.spans ++ life.current

/-- Each span begins where the one before it ended, the first at `start`. -/
def Tiled : Nanos → List FundingSpan → Prop
  | _, [] => True
  | start, span :: rest =>
      span.afterNs = start ∧ span.afterNs < span.throughNs ∧ Tiled span.throughNs rest

/-- The end of the last span. -/
def endOf : Nanos → List FundingSpan → Nanos
  | start, [] => start
  | _, span :: rest => endOf span.throughNs rest

theorem tiled_append {start : Nanos} {spans : List FundingSpan} :
    Tiled start (spans ++ [span]) ↔
      Tiled start spans ∧ span.afterNs = endOf start spans ∧ span.afterNs < span.throughNs := by
  induction spans generalizing start with
  | nil => simp [Tiled, endOf]
  | cons first rest ih => simp only [List.cons_append, Tiled, endOf, ih, and_assoc]

theorem endOf_append {start : Nanos} {spans : List FundingSpan} :
    endOf start (spans ++ [span]) = span.throughNs := by
  induction spans generalizing start with
  | nil => rfl
  | cons first rest ih => exact ih

/-- The payments of one symbol among some. -/
def factsOf (symbol : Symbol) (facts : List FundingAccrual) : List FundingAccrual :=
  facts.filter fun fact => fact.symbol = symbol

/-- What a wake-up has published of a symbol lies in its span, in order. -/
theorem boundaries_sublist (symbol : Symbol) (begun : span.facts <+: span.due config) :
    ((factsOf symbol span.facts).map FundingAccrual.boundaryTsNs).Sublist
      (Grid.slotsIn config.intervalNs span.afterNs span.throughNs) := by
  have part := (begun.sublist.filter fun fact => decide (fact.symbol = symbol)).map
    FundingAccrual.boundaryTsNs
  refine part.trans ?_
  rw [due_of]
  cases paid (fundingBasis config span.reads) symbol with
  | none => exact List.nil_sublist _
  | some amount => simp [Function.comp_def]

/-- **No boundary of a symbol is settled twice**: tiled spans publish increasing
boundaries, all after the first one's start. -/
theorem tiled_increasing (symbol : Symbol) {start : Nanos} {spans : List FundingSpan}
    (tiled : Tiled start spans) (begun : ∀ span ∈ spans, span.facts <+: span.due config) :
    ((factsOf symbol (spans.flatMap FundingSpan.facts)).map
        FundingAccrual.boundaryTsNs).Pairwise (· < ·) ∧
      ∀ fact ∈ factsOf symbol (spans.flatMap FundingSpan.facts), start < fact.boundaryTsNs := by
  induction spans generalizing start with
  | nil => simp [factsOf]
  | cons span rest ih =>
      obtain ⟨rfl, opens, later⟩ := tiled
      obtain ⟨restIncreasing, restAfter⟩ :=
        ih later fun other there => begun other (List.mem_cons_of_mem _ there)
      have own := boundaries_sublist symbol (begun span List.mem_cons_self)
      have inSpan : ∀ fact ∈ factsOf symbol span.facts,
          span.afterNs < fact.boundaryTsNs ∧ fact.boundaryTsNs ≤ span.throughNs := fun fact there =>
        ((Grid.mem_slotsIn config.positive).mp
          (own.subset (List.mem_map_of_mem there))).2
      have split : factsOf symbol ((span :: rest).flatMap FundingSpan.facts) =
          factsOf symbol span.facts ++ factsOf symbol (rest.flatMap FundingSpan.facts) := by
        simp [factsOf]
      rw [split]
      constructor
      · rw [List.map_append, List.pairwise_append]
        refine ⟨(Grid.slotsIn_sorted config.positive).sublist own, restIncreasing, ?_⟩
        intro first firstIn second secondIn
        obtain ⟨fact, there, rfl⟩ := List.mem_map.mp firstIn
        obtain ⟨other, among, rfl⟩ := List.mem_map.mp secondIn
        exact (inSpan fact there).2.trans_lt (restAfter other among)
      · intro fact member
        rcases List.mem_append.mp member with here | there
        · exact (inSpan fact here).1
        · exact opens.trans (restAfter fact there)

/-! ## What every move keeps -/

variable {startNs : Nanos} {life after : FundingLife}

structure Settling (config : FundingConfig) (startNs : Nanos) (life : FundingLife) : Prop where
  tiled : Tiled startNs life.allSpans
  settled : ∀ settledNs, life.stage = .sleeping settledNs → settledNs = endOf startNs life.spans
  reached : ∀ span ∈ life.allSpans, span.throughNs ≤ life.nowNs
  whole : ∀ span ∈ life.spans, span.facts = span.due config
  owed : ∀ span rest, life.stage = .publishing span rest → span.facts ++ rest = span.due config
  begun : ∀ span ∈ life.current, span.facts <+: span.due config

theorem settling_start : Settling config startNs (FundingLife.start startNs) where
  tiled := trivial
  settled := by
    intro settledNs asleep
    cases asleep
    rfl
  reached := by simp [FundingLife.allSpans, FundingLife.current, FundingLife.start]
  whole := by simp [FundingLife.start]
  owed := by simp [FundingLife.start]
  begun := by simp [FundingLife.current, FundingLife.start]

theorem facts_post (nowNs : Nanos) (fact : FundingAccrual) :
    (span.post config nowNs fact).facts = span.facts ++ [fact] := by
  simp [FundingSpan.post, FundingSpan.facts]

/-- **A wake-up goes on**: it publishes the next payment it owes, or is done. -/
theorem settling_goOn {rest : List FundingAccrual}
    (tiled : Tiled startNs (life.spans ++ [span]))
    (reached : ∀ other ∈ life.spans ++ [span], other.throughNs ≤ life.nowNs)
    (whole : ∀ other ∈ life.spans, other.facts = other.due config)
    (owed : span.facts ++ rest = span.due config) :
    Settling config startNs (life.goOn config span rest) := by
  cases rest with
  | nil =>
      refine ⟨by simpa [FundingLife.goOn, FundingLife.allSpans, FundingLife.current] using tiled,
        ?_, by simpa [FundingLife.goOn, FundingLife.allSpans, FundingLife.current] using reached,
        ?_, by simp [FundingLife.goOn], by simp [FundingLife.goOn, FundingLife.current]⟩
      · intro settledNs asleep
        cases asleep
        exact endOf_append.symm
      · intro other member
        rcases List.mem_append.mp member with old | new
        · exact whole other old
        · rw [List.mem_singleton.mp new, ← owed, List.append_nil]
  | cons fact rest =>
      have onward : (span.post config life.nowNs fact).facts ++ rest =
          (span.post config life.nowNs fact).due config := by
        rw [facts_post, List.append_assoc]
        exact owed
      refine ⟨?_, by simp [FundingLife.goOn], ?_, whole, ?_, ?_⟩
      · obtain ⟨before, begins, ends⟩ := tiled_append.mp tiled
        exact tiled_append.mpr ⟨before, begins, ends⟩
      · intro other member
        rcases List.mem_append.mp member with old | new
        · exact reached other (List.mem_append_left _ old)
        · rw [List.mem_singleton.mp new]
          exact reached span (by simp)
      · intro other left publishing
        cases publishing
        exact onward
      · intro other member
        rw [List.mem_singleton.mp member]
        exact ⟨rest, onward⟩

theorem settling_step {move : FundingMove} (settling : Settling config startNs life)
    (moved : (fundingLoop config).step life move = some after) : Settling config startNs after := by
  cases move with
  | pass ns =>
      simp only [fundingLoop, Option.some.injEq] at moved
      subst moved
      have onward : life.nowNs ≤ life.nowNs + ns := by linarith [Int.natCast_nonneg ns]
      exact { settling with
        reached := fun span there => (settling.reached span there).trans onward }
  | wake reads =>
      cases stands : life.stage with
      | sleeping settledNs =>
          simp only [fundingLoop, stands] at moved
          split at moved
          · rename_i due
            simp only [Option.some.injEq] at moved
            subst moved
            have bare : life.allSpans = life.spans := by
              simp [FundingLife.allSpans, FundingLife.current, stands]
            have opens : settledNs < life.nowNs := by
              have next : settledNs < Grid.nextSlot config.intervalNs settledNs :=
                Grid.lt_nextSlot config.positive
              rw [Grid.nextSlot_eq] at next
              exact next.trans_le due
            refine settling_goOn (tiled_append.mpr ⟨bare ▸ settling.tiled, settling.settled _ stands,
              opens⟩) ?_ settling.whole (List.nil_append _)
            intro other member
            rcases List.mem_append.mp member with old | new
            · exact settling.reached other (bare ▸ old)
            · rw [List.mem_singleton.mp new]
          · cases moved
      | publishing _ _ | broken _ => simp [fundingLoop, stands] at moved
  | published =>
      cases stands : life.stage with
      | publishing span rest =>
          simp only [fundingLoop, stands, Option.some.injEq] at moved
          subst moved
          have all : life.allSpans = life.spans ++ [span] := by
            simp [FundingLife.allSpans, FundingLife.current, stands]
          exact settling_goOn (all ▸ settling.tiled) (all ▸ settling.reached) settling.whole
            (settling.owed span rest stands)
      | sleeping _ | broken _ => simp [fundingLoop, stands] at moved
  | fault =>
      cases stands : life.stage with
      | publishing span rest =>
          simp only [fundingLoop, stands, Option.some.injEq] at moved
          subst moved
          exact ⟨by simpa [FundingLife.allSpans, FundingLife.current, stands] using settling.tiled,
            by simp,
            by simpa [FundingLife.allSpans, FundingLife.current, stands] using settling.reached,
            settling.whole, by simp, by simpa [FundingLife.current, stands] using settling.begun⟩
      | sleeping _ | broken _ => simp [fundingLoop, stands] at moved

/-! ## What a life settles -/

/-- What a life of the loop promises. -/
structure SettlesOnce (config : FundingConfig) (startNs : Nanos) (life : FundingLife) : Prop where
  /-- A wake-up settles from the one before it, the first from the start. -/
  tiled : Tiled startNs life.allSpans
  /-- Of each symbol, the boundaries strictly increase over the life. -/
  increasing : ∀ symbol, ((factsOf symbol (life.allSpans.flatMap FundingSpan.facts)).map
    FundingAccrual.boundaryTsNs).Pairwise (· < ·)
  /-- Each is a multiple of the interval after the start, and not after the clock
  of its wake-up. -/
  onGrid : ∀ span ∈ life.allSpans, ∀ fact ∈ span.facts,
    config.intervalNs ∣ fact.boundaryTsNs ∧ startNs < fact.boundaryTsNs ∧
      fact.boundaryTsNs ≤ span.throughNs
  /-- A wake-up that has read a symbol with a payment due publishes exactly the
  boundaries of its span for it, each with that payment. -/
  exact : ∀ span ∈ life.spans, ∀ symbol signedSize tick spec,
    span.reads.accountNet.get symbol = some signedSize →
    span.reads.latestTick.get symbol = some tick → config.specs.get symbol = some spec →
    fundingAmount signedSize tick.price spec ≠ 0 →
    factsOf symbol span.facts =
      (Grid.slotsIn config.intervalNs span.afterNs span.throughNs).map fun boundaryNs =>
        ⟨symbol, boundaryNs, fundingAmount signedSize tick.price spec⟩
  /-- One under way has published a first part of what it owes. -/
  begun : ∀ span ∈ life.allSpans, span.facts <+: span.due config

theorem Settling.begunAll (settling : Settling config startNs life) :
    ∀ span ∈ life.allSpans, span.facts <+: span.due config := by
  intro span member
  rcases List.mem_append.mp member with done | current
  · rw [settling.whole span done]
  · exact settling.begun span current

theorem settling_run {moves : List FundingMove}
    (ran : (fundingLoop config).run (FundingLife.start startNs) moves = some life) :
    Settling config startNs life :=
  Machine.run_induct (Settling config startNs) settling_step settling_start ran

/-- **Every boundary is settled once**, however the clock jumps and whatever time
the publishes take. -/
theorem settles_once {moves : List FundingMove}
    (ran : (fundingLoop config).run (FundingLife.start startNs) moves = some life) :
    SettlesOnce config startNs life := by
  have settling := settling_run ran
  have begun := settling.begunAll
  refine ⟨settling.tiled, fun symbol => (tiled_increasing symbol settling.tiled begun).1,
    fun span there fact member => ?_,
    fun span done symbol signedSize tick spec held traded specified owes => ?_, begun⟩
  · have own : fact ∈ factsOf fact.symbol span.facts :=
      List.mem_filter.mpr ⟨member, decide_eq_true rfl⟩
    have placed := (Grid.mem_slotsIn config.positive).mp
      ((boundaries_sublist fact.symbol (begun span there)).subset (List.mem_map_of_mem own))
    have among : fact ∈ factsOf fact.symbol (life.allSpans.flatMap FundingSpan.facts) :=
      List.mem_filter.mpr ⟨List.mem_flatMap.mpr ⟨span, there, member⟩, decide_eq_true rfl⟩
    exact ⟨placed.1, (tiled_increasing fact.symbol settling.tiled begun).2 fact among,
      placed.2.2⟩
  · have payment := paid_of_mem (fundingBasis_nodup config span.reads)
      (mem_fundingBasis held traded specified) owes
    dsimp only at payment
    rw [settling.whole span done, factsOf, due_of, payment]
    rfl

/-- **A wake-up comes to its end**, one step after the publishes it has left. -/
theorem span_settles {rest : List FundingAccrual}
    (stands : life.stage = .publishing span rest) :
    ∃ settled, (fundingLoop config).run life (List.replicate (rest.length + 1) .published) =
        some settled ∧ settled.stage = .sleeping span.throughNs := by
  induction rest generalizing life span with
  | nil =>
      exact ⟨life.goOn config span [], by simp [Machine.run, fundingLoop, stands], rfl⟩
  | cons fact rest ih =>
      have onward : (life.goOn config span (fact :: rest)).stage =
          .publishing (span.post config life.nowNs fact) rest := rfl
      obtain ⟨settled, ran, asleep⟩ := ih onward
      refine ⟨settled, ?_, asleep⟩
      rw [List.length_cons, List.replicate_succ, Machine.run_cons_eq_some]
      exact ⟨_, by simp only [fundingLoop, stands], ran⟩

/-! ## A sample life -/

namespace Sample

/-- An interval of a hundred, a rate of one. -/
def everyHundred : FundingConfig where
  accountId := "paper"
  specs := Dict.empty.set "BTC" ⟨⟨0, 6, 0, none, 0, 0, 0⟩, 1⟩
  intervalNs := 100
  positive := by decide

/-- Long two at a last trade of five. -/
def long : FundingReads where
  accountNet := Dict.empty.set "BTC" 2
  latestTick := Dict.empty.set "BTC" ⟨"BTC", 5⟩

/-- A jump over two boundaries onto a third; a fourth is reached while the first is
published. -/
def jump : List FundingMove :=
  [.pass 250, .wake long, .pass 150, .published, .published, .published, .wake long, .published]

theorem settles_once_jump : ∃ life,
    (fundingLoop everyHundred).run (FundingLife.start 50) jump = some life ∧
      life.spans.map FundingSpan.facts =
        [[⟨"BTC", 100, -10⟩, ⟨"BTC", 200, -10⟩, ⟨"BTC", 300, -10⟩], [⟨"BTC", 400, -10⟩]] ∧
      SettlesOnce everyHundred 50 life := by
  have ended : ((fundingLoop everyHundred).run (FundingLife.start 50) jump).map
      (fun life => life.spans.map FundingSpan.facts) =
        some [[⟨"BTC", 100, -10⟩, ⟨"BTC", 200, -10⟩, ⟨"BTC", 300, -10⟩], [⟨"BTC", 400, -10⟩]] := by
    decide +kernel
  obtain ⟨life, ran, facts⟩ := Option.map_eq_some_iff.mp ended
  exact ⟨life, ran, facts, settles_once ran⟩

end Sample

end Tickwright.Paper
