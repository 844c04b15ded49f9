/-
# Engine.RateCap -- the rate cap is an exact sliding window

The guard keeps the times of approved placements and drops, from the front only,
those that have left the window.  Times come in order, so what it keeps always
decides as the whole history would (`Windowed`):

* `inWindow_eq`: of a list in time order, dropping from the front is filtering;
* `Windowed.called`: one more check keeps that, whatever it answers;
* `rate_cap_exact`: the cap refuses exactly where the window is full, and so no
  window of that length ever holds more than the cap.
-/
import Tickwright.Engine.Guard
import Mathlib.Data.List.Sort
import Mathlib.Data.List.TakeWhile
import Mathlib.Tactic.Linarith

namespace Tickwright.Engine

open Tickwright.Domain Tickwright.Theory

set_option autoImplicit false

namespace RealGuard

/-! ## A guard over many calls -/

/-- What a guard is asked to do. -/
inductive Call
  | check (signal : PlaceSignal) (reading : PreTradeReading) (nowNs : Nanos)
  /-- `trip_kill_switch`, `reset_kill_switch`. -/
  | halt (tripped : Bool)

/-- A guard beside the times of the placements it approved, flatten orders left
out. -/
structure Calls where
  guard : RealGuard
  approvals : List Nanos := []

/-- An approval the rate cap counts. -/
def takesSlot (signal : PlaceSignal) (decision : GuardDecision) : Bool :=
  match decision with
  | .approved _ _ => decide (orderKind signal ≠ .flatten)
  | .denied _ => false

/-- One call.  A check that raises moves nothing. -/
def Calls.call (calls : Calls) : Call → Calls
  | .halt tripped => { calls with guard := { calls.guard with tripped := tripped } }
  | .check signal reading nowNs =>
      match calls.guard.check signal reading nowNs with
      | .error _ => calls
      | .ok (decision, moved) =>
          { guard := moved
            approvals :=
              if takesSlot signal decision then calls.approvals ++ [nowNs] else calls.approvals }

def Call.atNs : Call → Option Nanos
  | .check _ _ nowNs => some nowNs
  | .halt _ => none

/-- The clock never steps back. -/
def InOrder (history : List Call) : Prop := (history.filterMap Call.atNs).Pairwise (· ≤ ·)

instance (history : List Call) : Decidable (InOrder history) :=
  inferInstanceAs (Decidable (List.Pairwise _ _))

/-- The approvals later than `now - window`. -/
def recent (approvals : List Nanos) (windowNs nowNs : Nanos) : List Nanos :=
  approvals.filter fun t => decide (nowNs - windowNs < t)

/-! ## The rate cap comes last -/

/-- Every check before the rate cap: a refusal, or the size and price to approve. -/
def otherChecks (guard : RealGuard) (signal : PlaceSignal) (reading : PreTradeReading)
    (nowNs : Nanos) : Except InvariantViolation (Except Denial (Decimal × Option Decimal)) :=
  let kind := orderKind signal
  if guard.tripped = true ∧ kind ≠ .flatten then
    .ok (.error .killSwitch)
  else
    match guard.specs signal.symbol with
    | none => .error (.noSpecWired signal.symbol)
    | some spec =>
        let quantity := quantizeSize signal.quantity spec
        let price := signal.price.map fun price => quantizePrice price signal.side spec
        if quantity ≤ 0 then
          .ok (.error .sizeRoundsToZero)
        else if price.any fun price => minNotionalRefuses price quantity spec signal.side
            (decide (kind ≠ .plain)) reading.accountNetSize then
          .ok (.error .belowMinNotional)
        else if ownRefusal kind reading signal.side quantity then
          .ok (.error .wouldNotReduce)
        else
          let reduces := shrinks (before reading signal.side)
            (worstCase reading signal.side quantity)
          let capped := if reduces || decide (kind ≠ .plain) then none
            else guard.capRefusal (guard.limits.symbols signal.symbol) reading signal.side
              quantity price nowNs
          match capped with
          | some denial => .ok (.error denial)
          | none => .ok (.ok (quantity, price))

variable {guard moved : RealGuard} {signal : PlaceSignal} {reading : PreTradeReading}
  {nowNs : Nanos} {cap : RateCap}

/-- **A check is every other check, then the rate cap.** -/
theorem check_eq (guard : RealGuard) (signal : PlaceSignal) (reading : PreTradeReading)
    (nowNs : Nanos) :
    guard.check signal reading nowNs =
      match guard.otherChecks signal reading nowNs with
      | .error violation => .error violation
      | .ok (.error denial) => .ok (.denied (denial.reason guard.text), guard)
      | .ok (.ok (quantity, price)) =>
          match guard.rateCheck (orderKind signal) nowNs with
          | (some denial, moved) => .ok (.denied (denial.reason moved.text), moved)
          | (none, moved) => .ok (.approved quantity price, moved) := by
  simp only [check, otherChecks]
  split
  · rfl
  · cases guard.specs signal.symbol with
    | none => rfl
    | some spec =>
        dsimp only
        split
        · rfl
        · split
          · rfl
          · split
            · rfl
            · generalize (if (shrinks (before reading signal.side) (worstCase reading signal.side
                (quantizeSize signal.quantity spec)) || decide (orderKind signal ≠ .plain)) = true
                then none
                else guard.capRefusal (guard.limits.symbols signal.symbol) reading signal.side
                  (quantizeSize signal.quantity spec)
                  (signal.price.map fun price => quantizePrice price signal.side spec) nowNs) = capped
              cases capped with
              | none => rfl
              | some denial => rfl

/-! ## The window -/

/-- Dropping from the front of a list in time order is filtering it. -/
theorem inWindow_eq {times : List Nanos} (sorted : times.Pairwise (· ≤ ·)) (windowNs nowNs : Nanos) :
    inWindow times windowNs nowNs = recent times windowNs nowNs := by
  induction times with
  | nil => rfl
  | cons first rest ih =>
      rw [List.pairwise_cons] at sorted
      by_cases left : windowNs ≤ nowNs - first
      · have out : ¬ nowNs - windowNs < first := not_lt.mpr (by linarith)
        simp only [inWindow, recent, List.dropWhile_cons, List.filter_cons, left, out,
          decide_true, decide_false, if_true]
        exact ih sorted.2
      · have all : ∀ t ∈ first :: rest, decide (nowNs - windowNs < t) = true := by
          intro t member
          rcases List.mem_cons.mp member with rfl | later
          · exact decide_eq_true (by linarith [not_le.mp left])
          · exact decide_eq_true (by linarith [not_le.mp left, sorted.1 t later])
        simp only [inWindow, recent, List.dropWhile_cons, left, decide_false]
        exact (List.filter_eq_self.mpr all).symm

/-- What the guard keeps decides as the whole history does, from `lastNs` on. -/
structure Windowed (cap : RateCap) (calls : Calls) (lastNs : Nanos) : Prop where
  limited : calls.guard.limits.rateCap = some cap
  sorted : calls.approvals.Pairwise (· ≤ ·)
  past : ∀ t ∈ calls.approvals, t ≤ lastNs
  keeps : ∃ left, calls.approvals = left ++ calls.guard.approvedNs ∧
    ∀ t ∈ left, cap.windowNs ≤ lastNs - t
  fits : ∀ startNs, (calls.approvals.filter fun t =>
      decide (startNs ≤ t ∧ t < startNs + cap.windowNs)).length ≤ cap.maxOrders ∧
    (calls.approvals.filter fun t =>
      decide (startNs < t ∧ t ≤ startNs + cap.windowNs)).length ≤ cap.maxOrders

/-- **The slots in use at any later time are the approvals the window holds.** -/
theorem Windowed.slots {calls : Calls} {lastNs : Nanos} (windowed : Windowed cap calls lastNs)
    (later : lastNs ≤ nowNs) :
    inWindow calls.guard.approvedNs cap.windowNs nowNs =
      recent calls.approvals cap.windowNs nowNs := by
  obtain ⟨left, split, gone⟩ := windowed.keeps
  have sorted := windowed.sorted
  rw [split, List.pairwise_append] at sorted
  have none_ : left.filter (fun t => decide (nowNs - cap.windowNs < t)) = [] := by
    rw [List.filter_eq_nil_iff]
    intro t member
    simp only [decide_eq_true_eq, not_lt]
    linarith [gone t member]
  rw [inWindow_eq sorted.2.1, recent, recent, split, List.filter_append, none_, List.nil_append]

/-- What leaves the front of the guard's list has left the window. -/
theorem dropWhile_split (times : List Nanos) (windowNs nowNs : Nanos) :
    ∃ left, times = left ++ inWindow times windowNs nowNs ∧ ∀ t ∈ left, windowNs ≤ nowNs - t := by
  refine ⟨times.takeWhile fun t => decide (windowNs ≤ nowNs - t),
    (List.takeWhile_append_dropWhile).symm, fun t member => ?_⟩
  have long := List.mem_takeWhile_imp member
  exact of_decide_eq_true long

theorem length_filter_append_le {times : List Nanos} {p : Nanos → Bool} {limit : ℕ} {t : Nanos}
    (fits : (times.filter p).length ≤ limit)
    (room : p t = true → (times.filter p).length < limit) :
    ((times ++ [t]).filter p).length ≤ limit := by
  rw [List.filter_append, List.length_append, List.filter_singleton]
  cases counts : p t with
  | true =>
      simpa using Nat.succ_le_of_lt (room counts)
  | false => simpa using fits

/-- **An approval the window has room for keeps every window inside the cap.** -/
theorem Windowed.approve {calls : Calls} {lastNs : Nanos} (windowed : Windowed cap calls lastNs)
    (later : lastNs ≤ nowNs)
    (room : (recent calls.approvals cap.windowNs nowNs).length < cap.maxOrders) :
    Windowed cap
      { guard := { calls.guard with
          approvedNs := inWindow calls.guard.approvedNs cap.windowNs nowNs ++ [nowNs] }
        approvals := calls.approvals ++ [nowNs] } nowNs := by
  have narrow : ∀ p : Nanos → Bool,
      (∀ t ∈ calls.approvals, p t = true → nowNs - cap.windowNs < t) →
      (calls.approvals.filter p).length < cap.maxOrders := by
    intro p inside
    refine lt_of_le_of_lt ?_ room
    have same : calls.approvals.filter p =
        (recent calls.approvals cap.windowNs nowNs).filter p := by
      rw [recent, List.filter_filter]
      apply List.filter_congr
      intro t member
      cases counts : p t with
      | true => simp [inside t member counts]
      | false => simp
    rw [same]
    exact List.length_filter_le _ _
  refine ⟨windowed.limited, ?_, ?_, ?_, fun startNs => ⟨?_, ?_⟩⟩
  · rw [List.pairwise_append]
    refine ⟨windowed.sorted, List.pairwise_singleton _ _, fun t member now is => ?_⟩
    rw [List.mem_singleton.mp is]
    exact (windowed.past t member).trans later
  · intro t member
    rcases List.mem_append.mp member with earlier | now
    · exact (windowed.past t earlier).trans later
    · exact (List.mem_singleton.mp now).le
  · obtain ⟨left, split, gone⟩ := windowed.keeps
    obtain ⟨dropped, parts, out⟩ :=
      dropWhile_split calls.guard.approvedNs cap.windowNs nowNs
    refine ⟨left ++ dropped, ?_, fun t member => ?_⟩
    · rw [split, List.append_assoc, List.append_assoc, ← List.append_assoc dropped, ← parts]
    · rcases List.mem_append.mp member with early | late
      · linarith [gone t early]
      · exact out t late
  · refine length_filter_append_le (windowed.fits startNs).1 fun counts => ?_
    rw [decide_eq_true_eq] at counts
    refine narrow _ fun t _ inside => ?_
    rw [decide_eq_true_eq] at inside
    linarith [counts.2, inside.1]
  · refine length_filter_append_le (windowed.fits startNs).2 fun counts => ?_
    rw [decide_eq_true_eq] at counts
    refine narrow _ fun t _ inside => ?_
    rw [decide_eq_true_eq] at inside
    linarith [counts.2, inside.1]

/-- A call that takes no slot only lets the window pass. -/
theorem Windowed.pass {calls : Calls} {lastNs : Nanos} (windowed : Windowed cap calls lastNs)
    (later : lastNs ≤ nowNs) {moved : RealGuard} (limits : moved.limits = calls.guard.limits)
    (kept : moved.approvedNs = calls.guard.approvedNs ∨
      moved.approvedNs = inWindow calls.guard.approvedNs cap.windowNs nowNs) :
    Windowed cap { calls with guard := moved } nowNs := by
  obtain ⟨left, split, gone⟩ := windowed.keeps
  refine ⟨?_, windowed.sorted, fun t member => (windowed.past t member).trans later, ?_,
    windowed.fits⟩
  · rw [limits]
    exact windowed.limited
  · rcases kept with same | pruned
    · refine ⟨left, ?_, fun t member => by linarith [gone t member]⟩
      rw [same]
      exact split
    · obtain ⟨dropped, parts, out⟩ :=
        dropWhile_split calls.guard.approvedNs cap.windowNs nowNs
      refine ⟨left ++ dropped, ?_, fun t member => ?_⟩
      · rw [pruned, List.append_assoc, ← parts]
        exact split
      · rcases List.mem_append.mp member with early | late
        · linarith [gone t early]
        · exact out t late

/-- What the rate cap answers, and what it leaves of its window. -/
theorem rateCheck_cases (kind : OrderKind) (nowNs : Nanos) (limited : guard.limits.rateCap = some cap) :
    (kind = .flatten ∧ guard.rateCheck kind nowNs = (none, guard)) ∨
    (kind ≠ .flatten ∧
      cap.maxOrders ≤ (inWindow guard.approvedNs cap.windowNs nowNs).length ∧
      guard.rateCheck kind nowNs = (some (.aboveRateCap cap.maxOrders cap.windowSeconds),
        { guard with approvedNs := inWindow guard.approvedNs cap.windowNs nowNs })) ∨
    (kind ≠ .flatten ∧
      (inWindow guard.approvedNs cap.windowNs nowNs).length < cap.maxOrders ∧
      guard.rateCheck kind nowNs = (none,
        { guard with approvedNs := inWindow guard.approvedNs cap.windowNs nowNs ++ [nowNs] })) := by
  simp only [rateCheck, limited]
  by_cases flat : kind = .flatten
  · exact Or.inl ⟨flat, by rw [if_pos flat]⟩
  · rw [if_neg flat]
    by_cases full : cap.maxOrders ≤ (inWindow guard.approvedNs cap.windowNs nowNs).length
    · exact Or.inr (Or.inl ⟨flat, full, by rw [if_pos full]⟩)
    · exact Or.inr (Or.inr ⟨flat, not_le.mp full, by rw [if_neg full]⟩)

/-- **One more call keeps the window exact, whatever it answers.** -/
theorem Windowed.called {calls : Calls} {lastNs : Nanos} (windowed : Windowed cap calls lastNs)
    (signal : PlaceSignal) (reading : PreTradeReading) (later : lastNs ≤ nowNs) :
    Windowed cap (calls.call (.check signal reading nowNs)) nowNs := by
  have idle : Windowed cap { calls with guard := calls.guard } nowNs :=
    windowed.pass later rfl (Or.inl rfl)
  simp only [Calls.call, check_eq]
  cases calls.guard.otherChecks signal reading nowNs with
  | error violation => exact idle
  | ok verdict =>
      cases verdict with
      | error denial => exact idle
      | ok order =>
          rcases rateCheck_cases (orderKind signal) nowNs windowed.limited with
            ⟨flat, is⟩ | ⟨_, _, is⟩ | ⟨counts, room, is⟩
          · simp only [is]
            simp only [takesSlot, flat, ne_eq, not_true_eq_false, decide_false, Bool.false_eq_true,
              if_false]
            exact idle
          · simp only [is, takesSlot]
            exact windowed.pass later rfl (Or.inr rfl)
          · simp only [is, takesSlot, counts, ne_eq, not_false_eq_true, decide_true, if_true]
            rw [windowed.slots later] at room
            exact windowed.approve later room

theorem Windowed.halted {calls : Calls} {lastNs : Nanos} (windowed : Windowed cap calls lastNs)
    (tripped : Bool) : Windowed cap (calls.call (.halt tripped)) lastNs :=
  ⟨windowed.limited, windowed.sorted, windowed.past, windowed.keeps, windowed.fits⟩

/-- **A history in order keeps the window exact.** -/
theorem windowed_of_history {guard : RealGuard} (limited : guard.limits.rateCap = some cap)
    (fresh : guard.approvedNs = []) {history : List Call} (inOrder : InOrder history)
    {nowNs : Nanos} (later : ∀ t ∈ history.filterMap Call.atNs, t ≤ nowNs) :
    Windowed cap (history.foldl Calls.call { guard := guard }) nowNs := by
  induction history using List.reverseRecOn generalizing nowNs with
  | nil =>
      refine ⟨limited, List.Pairwise.nil, fun t member => ?_, ⟨[], ?_, fun t member => ?_⟩,
        fun _ => ⟨Nat.zero_le _, Nat.zero_le _⟩⟩
      · cases member
      · rw [List.nil_append]
        exact fresh.symm
      · cases member
  | append_singleton front call ih =>
      simp only [InOrder, List.filterMap_append, List.pairwise_append] at inOrder
      obtain ⟨first, _, across⟩ := inOrder
      rw [List.filterMap_append] at later
      rw [List.foldl_append, List.foldl_cons, List.foldl_nil]
      cases call with
      | halt tripped =>
          exact (ih first fun t member => later t (List.mem_append_left _ member)).halted tripped
      | check signal reading atNs =>
          have here : ∀ t ∈ front.filterMap Call.atNs, t ≤ atNs := fun t member =>
            across t member atNs (by simp [Call.atNs])
          have at_ := (ih first here).called signal reading (le_refl atNs)
          have last : atNs ≤ nowNs :=
            later atNs (List.mem_append_right _ (by simp [Call.atNs]))
          exact at_.pass last rfl (Or.inl rfl)

/-- **The rate cap is an exact sliding window.**  After any calls on a new guard, in
time order, a placement that passes every other check and is no flatten order is
refused by the rate cap exactly where the window before it holds `maxOrders`
approvals or more, else it is approved.  No half-open window of that length ever
holds more, and a call that takes no slot leaves the slots in use as they were. -/
theorem rate_cap_exact {guard : RealGuard} (limited : guard.limits.rateCap = some cap)
    (fresh : guard.approvedNs = []) {history : List Call} {signal : PlaceSignal}
    {reading : PreTradeReading} {nowNs : Nanos}
    (inOrder : InOrder (history ++ [.check signal reading nowNs])) :
    let calls := history.foldl Calls.call { guard := guard }
    (∀ quantity price, orderKind signal ≠ .flatten →
      calls.guard.otherChecks signal reading nowNs = .ok (.ok (quantity, price)) →
      (cap.maxOrders ≤ (recent calls.approvals cap.windowNs nowNs).length ∧
        (calls.guard.check signal reading nowNs).map Prod.fst = .ok (.denied
          ((Denial.aboveRateCap cap.maxOrders cap.windowSeconds).reason calls.guard.text))) ∨
      ((recent calls.approvals cap.windowNs nowNs).length < cap.maxOrders ∧
        (calls.guard.check signal reading nowNs).map Prod.fst =
          .ok (.approved quantity price))) ∧
    (∀ startNs,
      (calls.approvals.filter fun t =>
        decide (startNs ≤ t ∧ t < startNs + cap.windowNs)).length ≤ cap.maxOrders ∧
      (calls.approvals.filter fun t =>
        decide (startNs < t ∧ t ≤ startNs + cap.windowNs)).length ≤ cap.maxOrders) ∧
    (∀ decision moved, calls.guard.check signal reading nowNs = .ok (decision, moved) →
      takesSlot signal decision = false → ∀ laterNs, nowNs ≤ laterNs →
        inWindow moved.approvedNs cap.windowNs laterNs =
          inWindow calls.guard.approvedNs cap.windowNs laterNs) := by
  intro calls
  simp only [InOrder, List.filterMap_append, List.pairwise_append] at inOrder
  obtain ⟨first, _, across⟩ := inOrder
  have here : ∀ t ∈ history.filterMap Call.atNs, t ≤ nowNs := fun t member =>
    across t member nowNs (by simp [Call.atNs])
  have windowed : Windowed cap calls nowNs := windowed_of_history limited fresh first here
  refine ⟨fun quantity price counts passes => ?_, windowed.fits, ?_⟩
  · rw [check_eq, passes]
    rcases rateCheck_cases (orderKind signal) nowNs windowed.limited with
      ⟨flat, _⟩ | ⟨_, full, is⟩ | ⟨_, room, is⟩
    · exact absurd flat counts
    · rw [windowed.slots (le_refl nowNs)] at full
      exact Or.inl ⟨full, by simp only [is]; rfl⟩
    · rw [windowed.slots (le_refl nowNs)] at room
      exact Or.inr ⟨room, by simp only [is]; rfl⟩
  · intro decision moved checked noSlot laterNs later
    have after := windowed.called signal reading (le_refl nowNs)
    simp only [Calls.call, checked, noSlot, Bool.false_eq_true, if_false] at after
    rw [after.slots later, windowed.slots later]

end RealGuard

namespace Sample

/-- Two placements in any ten nanoseconds. -/
def twoPerTen : RateCap where
  maxOrders := 2
  windowSeconds := "1e-08"
  windowNs := 10

def twoInTen : RealGuard where
  specs _ := some { szDecimals := 2, maxDecimals := 4, minNotional := 1 }
  limits := { rateCap := some twoPerTen }

def smallBuy : PlaceSignal where
  strategyId := ⟨"alpha", by decide⟩
  symbol := "BTC"
  seq := 1
  side := .buy
  quantity := 1
  orderType := .market
  timeInForce := .ioc

def flatReading : PreTradeReading where
  symbol := "BTC"
  side := .buy
  accountNetSize := 0
  strategyNetSize := 0
  openRemainder := 0
  mark := none

/-- Approved at 0 and 4, refused at 9. -/
def threeBuys : List RealGuard.Call :=
  [.check smallBuy flatReading 0, .check smallBuy flatReading 4, .check smallBuy flatReading 9]

/-- At 10 the first approval has left the window, and the refusal took no slot. -/
theorem tenth_approved :
    ((threeBuys.foldl RealGuard.Calls.call { guard := twoInTen }).guard.check smallBuy flatReading
      10).map Prod.fst = .ok (.approved 1 none) := by
  have limited : twoInTen.limits.rateCap = some twoPerTen := rfl
  have inOrder : RealGuard.InOrder (threeBuys ++ [.check smallBuy flatReading 10]) := by decide
  have passes : (threeBuys.foldl RealGuard.Calls.call { guard := twoInTen }).guard.otherChecks
      smallBuy flatReading 10 = .ok (.ok (1, none)) := by decide +kernel
  rcases (RealGuard.rate_cap_exact limited rfl inOrder).1 1 none (by decide) passes with
    ⟨full, _⟩ | ⟨_, approved⟩
  · exfalso
    revert full
    decide +kernel
  · exact approved

end Sample

end Tickwright.Engine
