/-
# Paper.Tally -- what the reports in a queue will make of one saga

A fill of a paper order is known by its number, and a saga books each number
once.  A `Tally` is what is booked of one order so far: how many fills, how much,
and whether a status has ended the order.  `Flows` says a queue of reports is in
order for it: each fill is one already booked, or the next, and no next one meets
an order that is ended or whole.

* `fillNumber_tradeId`: the number in a trade id is read back from it;
* `flows_append`: a report put at the back is judged by what comes before it;
* `Flows.took`: handling the front one needs no argument of its own.
-/
import Tickwright.Paper.Exchange
import Tickwright.Engine.Saga

namespace Tickwright.Paper

open Tickwright.Domain Tickwright.Theory Tickwright.Engine

set_option autoImplicit false

/-! ## Trade ids -/

theorem dash_not_digit {c : Char} (digit : c.isDigit = true) : c ≠ '-' := by
  rintro rfl
  revert digit
  decide

/-- `rpartition` splits at the last dash. -/
theorem rpartition_dash {before after : List Char} (noDash : ∀ c ∈ after, c ≠ '-') :
    rpartition (before ++ '-' :: after) = (before, after) := by
  have reversed : (before ++ '-' :: after).reverse = after.reverse ++ '-' :: before.reverse := by
    simp
  have clean : ∀ c ∈ after.reverse, decide (c ≠ '-') = true := fun c member =>
    decide_eq_true (noDash c (List.mem_reverse.mp member))
  simp only [rpartition, reversed, List.takeWhile_append_of_pos clean,
    List.dropWhile_append_of_pos clean]
  simp

theorem tradeId_toList (cloid : Cloid) (number : ℕ) :
    (tradeId cloid number).toList = cloid.toList ++ '-' :: Nat.toDigits 10 number := by
  simp [tradeId, String.toList_append, Nat.repr]

/-- **The number in a trade id is read back from it.** -/
theorem fillNumber_tradeId {report : FillReport} {number : ℕ}
    (named : report.tradeId = tradeId report.cloid number) : fillNumber report = some number := by
  have parts := @rpartition_dash report.cloid.toList (Nat.toDigits 10 number) fun c member =>
    dash_not_digit (isDigit_of_mem_toDigits member)
  have read : Domain.int (Nat.toDigits 10 number) = some (number : ℤ) := int_decimal number
  simp only [fillNumber, named, tradeId_toList, parts]
  rw [if_neg, read, Option.map_some, Int.toNat_natCast]
  rintro (other | short)
  · exact other rfl
  · rw [isdecimal_toDigits] at short
    cases short

theorem tradeId_inj {cloid : Cloid} {n m : ℕ} (same : tradeId cloid n = tradeId cloid m) :
    n = m := by
  have lists := congrArg String.toList same
  rw [tradeId_toList, tradeId_toList, List.append_cancel_left_eq, List.cons.injEq] at lists
  have read := congrArg (fun digits => Nat.ofDigitChars 10 digits 0) lists.2
  simpa only [Nat.ofDigitChars_ten_toDigits] using read

/-! ## Tallies -/

/-- What is booked of one order, and whether a status has ended it. -/
structure Tally where
  booked : ℕ
  cum : Decimal
  ended : Bool
deriving DecidableEq

/-- The tally of a saga.  A whole one is ended by its fills, not by a status. -/
def tallyOf (order : Order) : Tally where
  booked := order.fillCount
  cum := order.cumQty
  ended := order.isTerminal && decide (order.state ≠ .filled)

namespace Tally

variable {cloid : Cloid} {quantity : Decimal}

/-- What one report makes of the tally of `cloid`: the next fill is booked, a
terminal status ends it, and everything else is a no-op. -/
def next (cloid : Cloid) (tally : Tally) : ExecutionReport → Tally
  | .fill report =>
      if report.cloid = cloid ∧ report.tradeId = tradeId cloid (tally.booked + 1) then
        { tally with booked := tally.booked + 1, cum := tally.cum + report.quantity }
      else tally
  | .status report =>
      if report.cloid = cloid ∧ report.status.isTerminal = true then { tally with ended := true }
      else tally
  | .refused _ _ => tally

/-- What a whole queue makes of it. -/
def after (cloid : Cloid) (tally : Tally) (queue : List ExecutionReport) : Tally :=
  queue.foldl (next cloid) tally

/-- A fill of `cloid` is one already booked, or the next of an order still open. -/
def Meets (cloid : Cloid) (quantity : Decimal) (tally : Tally) (report : ExecutionReport) : Prop :=
  match report with
  | .fill report => report.cloid = cloid →
      (∃ number, 1 ≤ number ∧ number ≤ tally.booked ∧ report.tradeId = tradeId cloid number) ∨
      (report.tradeId = tradeId cloid (tally.booked + 1) ∧ tally.ended = false ∧
        tally.cum < quantity)
  | .status _ | .refused _ _ => True

/-- Every report of the queue is met in order. -/
def Flows (cloid : Cloid) (quantity : Decimal) : Tally → List ExecutionReport → Prop
  | _, [] => True
  | tally, report :: rest =>
      tally.Meets cloid quantity report ∧ Flows cloid quantity (tally.next cloid report) rest

/-- As many bookings, of no greater size, and no end the other does not know. -/
structure Under (tally other : Tally) : Prop where
  booked : tally.booked = other.booked
  cum : tally.cum ≤ other.cum
  ended : other.ended = false → tally.ended = false

@[simp] theorem after_nil (cloid : Cloid) (tally : Tally) : tally.after cloid [] = tally := rfl

@[simp] theorem after_cons (cloid : Cloid) (tally : Tally) (report : ExecutionReport)
    (rest : List ExecutionReport) :
    tally.after cloid (report :: rest) = (tally.next cloid report).after cloid rest := rfl

theorem after_append (cloid : Cloid) (tally : Tally) (first second : List ExecutionReport) :
    tally.after cloid (first ++ second) = (tally.after cloid first).after cloid second :=
  List.foldl_append

/-- **A report put at the back is judged by what comes before it.** -/
theorem flows_append {tally : Tally} {first second : List ExecutionReport} :
    Flows cloid quantity tally (first ++ second) ↔
      Flows cloid quantity tally first ∧
        Flows cloid quantity (tally.after cloid first) second := by
  induction first generalizing tally with
  | nil => simp [Flows]
  | cons report rest ih => simp only [List.cons_append, Flows, ih, after_cons, and_assoc]

theorem flows_put {tally : Tally} {queue : List ExecutionReport} {report : ExecutionReport}
    (flows : Flows cloid quantity tally queue)
    (meets : (tally.after cloid queue).Meets cloid quantity report) :
    Flows cloid quantity tally (queue ++ [report]) :=
  flows_append.mpr ⟨flows, meets, trivial⟩

theorem Under.refl (tally : Tally) : tally.Under tally := ⟨rfl, le_refl _, id⟩

theorem Under.trans {tally other last : Tally} (first : tally.Under other)
    (second : other.Under last) : tally.Under last :=
  ⟨first.booked.trans second.booked, first.cum.trans second.cum,
    fun open_ => first.ended (second.ended open_)⟩

theorem Under.next {tally other : Tally} (under : tally.Under other) (report : ExecutionReport) :
    (tally.next cloid report).Under (other.next cloid report) := by
  obtain ⟨booked, cum, ended⟩ := under
  cases report with
  | fill report =>
      simp only [Tally.next, booked]
      split
      · exact ⟨rfl, add_le_add cum (le_refl _), ended⟩
      · exact ⟨booked, cum, ended⟩
  | status report =>
      simp only [Tally.next]
      split
      · exact ⟨booked, cum, fun h => by cases h⟩
      · exact ⟨booked, cum, ended⟩
  | refused c symbol => exact ⟨booked, cum, ended⟩

theorem Under.after {tally other : Tally} (under : tally.Under other)
    (queue : List ExecutionReport) :
    (tally.after cloid queue).Under (other.after cloid queue) := by
  induction queue generalizing tally other with
  | nil => exact under
  | cons report rest ih => exact ih (under.next report)

theorem Under.flows {tally other : Tally} (under : tally.Under other)
    {queue : List ExecutionReport} (flows : Flows cloid quantity other queue) :
    Flows cloid quantity tally queue := by
  induction queue generalizing tally other with
  | nil => trivial
  | cons report rest ih =>
      refine ⟨?_, ih (under.next report) flows.2⟩
      cases report with
      | fill report =>
          intro named
          rcases flows.1 named with ⟨number, positive, old, is⟩ | ⟨is, open_, short⟩
          · exact Or.inl ⟨number, positive, by rw [under.booked]; exact old, is⟩
          · exact Or.inr ⟨by rw [under.booked]; exact is, under.ended open_,
              under.cum.trans_lt short⟩
      | status report => trivial
      | refused c symbol => trivial

/-- A report of another order is a no-op. -/
theorem next_ne {tally : Tally} {report : ExecutionReport} (other : reaches report ≠ cloid) :
    tally.next cloid report = tally := by
  cases report with
  | fill report => exact if_neg fun h => other h.1
  | status report => exact if_neg fun h => other h.1
  | refused c symbol => rfl

theorem meets_ne {tally : Tally} {report : ExecutionReport} (other : reaches report ≠ cloid) :
    tally.Meets cloid quantity report := by
  cases report with
  | fill report => exact fun same => absurd same other
  | status report => trivial
  | refused c symbol => trivial

/-- A queue without the order leaves its tally. -/
theorem after_absent {tally : Tally} {queue : List ExecutionReport}
    (absent : ∀ report ∈ queue, reaches report ≠ cloid) :
    tally.after cloid queue = tally ∧ Flows cloid quantity tally queue := by
  induction queue generalizing tally with
  | nil => exact ⟨rfl, trivial⟩
  | cons report rest ih =>
      have here := absent report List.mem_cons_self
      simp only [after_cons, next_ne here, Flows]
      obtain ⟨same, flows⟩ := ih fun other member => absent other (List.mem_cons_of_mem _ member)
      exact ⟨same, meets_ne here, flows⟩

/-- Bookings only grow. -/
theorem booked_le_after (tally : Tally) (queue : List ExecutionReport) :
    tally.booked ≤ (tally.after cloid queue).booked := by
  induction queue generalizing tally with
  | nil => exact le_refl _
  | cons report rest ih =>
      refine le_trans ?_ (ih _)
      cases report with
      | fill report =>
          simp only [next]
          split
          · exact Nat.le_succ _
          · exact le_refl _
      | status report =>
          simp only [next]
          split
          · exact le_refl _
          · exact le_refl _
      | refused c symbol => exact le_refl _

/-- The tally once the next fill is booked, at this size. -/
def ahead (tally : Tally) (size : Decimal) : Tally :=
  { tally with booked := tally.booked + 1, cum := tally.cum + size }

/-- **Booking the next fill ahead of a queue.**  The queue may hold that fill too, at
no smaller size: there it is booked already.  Where it does not, the queue books
nothing. -/
theorem flows_ahead {tally : Tally} {queue : List ExecutionReport} {size : Decimal}
    (flows : Flows cloid quantity tally queue)
    (least : ∀ fill, .fill fill ∈ queue → fill.cloid = cloid →
      fill.tradeId = tradeId cloid (tally.booked + 1) → size ≤ fill.quantity) :
    Flows cloid quantity (tally.ahead size) queue ∧
      ((tally.after cloid queue).booked = tally.booked ∧
          (tally.ahead size).after cloid queue = (tally.after cloid queue).ahead size ∨
        tally.booked < (tally.after cloid queue).booked ∧
          ((tally.ahead size).after cloid queue).Under (tally.after cloid queue)) := by
  induction queue generalizing tally with
  | nil => exact ⟨trivial, .inl ⟨rfl, rfl⟩⟩
  | cons report rest ih =>
      have later : ∀ fill, .fill fill ∈ rest → fill.cloid = cloid →
          fill.tradeId = tradeId cloid (tally.booked + 1) → size ≤ fill.quantity :=
        fun fill member => least fill (List.mem_cons_of_mem _ member)
      cases report with
      | refused c symbol =>
          obtain ⟨flowing, either⟩ := ih flows.2 later
          exact ⟨⟨trivial, flowing⟩, either⟩
      | status report =>
          by_cases ends : report.cloid = cloid ∧ report.status.isTerminal = true
          · have moved : ∀ t : Tally, t.next cloid (.status report) = { t with ended := true } :=
              fun t => if_pos ends
            have tail := flows.2
            rw [moved] at tail
            obtain ⟨flowing, either⟩ := ih tail later
            simp only [Flows, after_cons, moved]
            exact ⟨⟨trivial, flowing⟩, either⟩
          · have moved : ∀ t : Tally, t.next cloid (.status report) = t := fun t => if_neg ends
            have tail := flows.2
            rw [moved] at tail
            obtain ⟨flowing, either⟩ := ih tail later
            simp only [Flows, after_cons, moved]
            exact ⟨⟨trivial, flowing⟩, either⟩
      | fill report =>
          by_cases isNext : report.cloid = cloid ∧
              report.tradeId = tradeId cloid (tally.booked + 1)
          · -- the queue's own copy of the fill that was booked ahead
            have passed : (tally.ahead size).next cloid (.fill report) = tally.ahead size := by
              refine if_neg fun again => ?_
              have numbers := tradeId_inj (isNext.2.symm.trans again.2)
              simp only [ahead] at numbers
              omega
            have booked : tally.next cloid (.fill report) =
                { tally with booked := tally.booked + 1, cum := tally.cum + report.quantity } :=
              if_pos isNext
            have under : (tally.ahead size).Under (tally.next cloid (.fill report)) := by
              rw [booked]
              exact ⟨rfl, add_le_add (le_refl _)
                (least report List.mem_cons_self isNext.1 isNext.2), id⟩
            have grows : tally.booked <
                ((tally.next cloid (.fill report)).after cloid rest).booked := by
              have least := @booked_le_after cloid (tally.next cloid (.fill report)) rest
              rw [booked] at least ⊢
              exact least
            refine ⟨⟨fun _ => .inl ⟨tally.booked + 1, by omega, le_refl _, isNext.2⟩, ?_⟩,
              .inr ⟨grows, ?_⟩⟩
            · rw [passed]
              exact under.flows flows.2
            · rw [after_cons, passed]
              exact under.after rest
          · have stays : tally.next cloid (.fill report) = tally := if_neg isNext
            have tail := flows.2
            rw [stays] at tail
            obtain ⟨flowing, either⟩ := ih tail later
            have passed : (tally.ahead size).next cloid (.fill report) = tally.ahead size := by
              refine if_neg fun again => ?_
              rcases flows.1 again.1 with ⟨number, _, old, is⟩ | ⟨is, _, _⟩
              · have numbers := tradeId_inj (is.symm.trans again.2)
                simp only [ahead] at numbers
                omega
              · exact isNext ⟨again.1, is⟩
            simp only [Flows, after_cons, stays, passed]
            refine ⟨⟨fun named => ?_, flowing⟩, either⟩
            rcases flows.1 named with ⟨number, positive, old, is⟩ | ⟨is, _, _⟩
            · exact .inl ⟨number, positive, Nat.le_succ_of_le old, is⟩
            · exact absurd ⟨named, is⟩ isNext

end Tally

/-! ## A saga and its tally -/

/-- What holds of every saga whose fills the paper venue makes: the booked trades
are numbered without a gap, an open saga is short of its quantity, a filled one
is not. -/
structure Counted (order : Order) : Prop where
  numbered : ∀ trade, EventId.fill order.cloid trade ∈ order.appliedEventIds ↔
    ∃ number, 1 ≤ number ∧ number ≤ order.fillCount ∧ trade = tradeId order.cloid number
  short : order.isTerminal = false → order.cumQty < order.quantity
  whole : order.state = .filled → order.quantity ≤ order.cumQty

theorem fillCount_insert {order after : Order} {id : EventId} (keyed : after.cloid = order.cloid)
    (grows : after.appliedEventIds = insert id order.appliedEventIds)
    (fresh : id ∉ order.appliedEventIds) :
    after.fillCount = order.fillCount + if id.isFillOf order.cloid then 1 else 0 := by
  simp only [Order.fillCount, keyed, grows, Finset.filter_insert]
  split
  · rw [Finset.card_insert_of_notMem fun member => fresh (Finset.mem_filter.mp member).1]
  · rfl

/-- A fill is one the saga has booked, or the next. -/
def Named (order : Order) (report : ExecutionReport) : Prop :=
  match report with
  | .fill report => ∃ number, 1 ≤ number ∧ number ≤ order.fillCount + 1 ∧
      report.tradeId = tradeId order.cloid number
  | .status _ | .refused _ _ => True

theorem Tally.Meets.named {order : Order} {report : ExecutionReport}
    (reached : reaches report = order.cloid)
    (meets : (tallyOf order).Meets order.cloid order.quantity report) : Named order report := by
  cases report with
  | fill report =>
      rcases meets reached with ⟨number, positive, old, is⟩ | ⟨is, _, _⟩
      · exact ⟨number, positive, Nat.le_succ_of_le old, is⟩
      · exact ⟨_, Nat.le_add_left 1 _, le_refl _, is⟩
  | status report => trivial
  | refused c symbol => trivial

/-- **What an absorbed report makes of a saga is what it makes of its tally.** -/
theorem absorb_tally {order after : Order} {report : ExecutionReport} {nowNs : Nanos}
    (counted : Counted order) (reached : reaches report = order.cloid)
    (named : Named order report) (absorbed : absorb order report nowNs = .ok after) :
    Counted after ∧ (tallyOf after).Under ((tallyOf order).next order.cloid report) := by
  obtain ⟨⟨keyed, _, _, quantity, _, _, _⟩, _⟩ := absorb_terms absorbed
  rcases absorb_ok absorbed with ⟨rfl, idle⟩ | moved
  · refine ⟨counted, ?_⟩
    cases report with
    | refused c symbol => exact .refl _
    | status report =>
        simp only [Tally.next]
        split
        · exact ⟨rfl, le_refl _, fun h => by cases h⟩
        · exact .refl _
    | fill report =>
        obtain ⟨number, _, old, is⟩ := (counted.numbered _).mp idle.2
        have stale : ¬ (report.cloid = after.cloid ∧
            report.tradeId = tradeId after.cloid ((tallyOf after).booked + 1)) := by
          rintro ⟨_, fresh⟩
          have same := tradeId_inj (is.symm.trans fresh)
          simp only [tallyOf] at same
          omega
        simp only [Tally.next, if_neg stale]
        exact .refl _
  · have did := moved.did
    cases report with
    | refused c symbol => exact did.elim
    | status report =>
        obtain ⟨open_, maps, fresh, _, state, _, cum, grows⟩ := did
        have count := fillCount_insert keyed grows fresh
        simp only [EventId.isFillOf, Bool.false_eq_true, if_false, add_zero] at count
        have kept : ((tallyOf order).next order.cloid (.status report)).booked = order.fillCount ∧
            ((tallyOf order).next order.cloid (.status report)).cum = order.cumQty := by
          simp only [Tally.next]
          split
          · exact ⟨rfl, rfl⟩
          · exact ⟨rfl, rfl⟩
        refine ⟨⟨fun trade => ?_, fun _ => ?_, fun isFilled => ?_⟩, count.trans kept.1.symm,
          (cum.trans kept.2.symm).le, fun notEnded => ?_⟩
        · rw [keyed, grows, count, Finset.mem_insert, counted.numbered]
          simp
        · rw [cum, quantity]
          exact counted.short open_
        · rw [state] at isFilled
          rw [isFilled] at maps
          cases maps
        · have going : report.status.isTerminal = false := by
            by_contra terminal
            rw [Bool.not_eq_false] at terminal
            simp only [Tally.next, reaches] at notEnded reached
            rw [if_pos ⟨reached, terminal⟩] at notEnded
            cases notEnded
          simp only [tallyOf, Order.isTerminal, state, going, Bool.false_and]
    | fill report =>
        obtain ⟨_, fresh, _, state, _, cum, grows⟩ := did
        have count := fillCount_insert keyed grows fresh
        simp only [EventId.isFillOf, beq_self_eq_true, if_true] at count
        obtain ⟨number, positive, upTo, is⟩ := named
        rcases Nat.le_succ_iff.mp upTo with old | rfl
        · rw [is] at fresh
          exact absurd ((counted.numbered _).mpr ⟨number, positive, old, rfl⟩) fresh
        · have booked : (tallyOf order).next order.cloid (.fill report) =
              { tallyOf order with
                booked := order.fillCount + 1, cum := order.cumQty + report.quantity } := by
            simp only [reaches] at reached
            exact if_pos ⟨reached, is⟩
          rw [booked]
          refine ⟨⟨fun trade => ?_, fun open_ => ?_, fun isFilled => ?_⟩, count, cum.le,
            fun _ => ?_⟩
          · rw [keyed, grows, count, Finset.mem_insert, counted.numbered, is]
            constructor
            · rintro (same | ⟨number, positive, old, rfl⟩)
              · cases same
                exact ⟨_, Nat.le_add_left 1 _, le_refl _, rfl⟩
              · exact ⟨number, positive, Nat.le_succ_of_le old, rfl⟩
            · rintro ⟨number, positive, upTo, rfl⟩
              rcases Nat.le_succ_iff.mp upTo with old | rfl
              · exact Or.inr ⟨number, positive, old, rfl⟩
              · exact Or.inl rfl
          · by_contra reached
            rw [cum, quantity, not_lt] at reached
            rw [if_pos reached] at state
            rw [Order.isTerminal, state] at open_
            cases open_
          · rw [cum, quantity]
            by_contra less
            rw [if_neg less] at state
            rw [state] at isFilled
            cases isFilled
          · simp only [tallyOf, Order.isTerminal, state]
            split
            · rfl
            · rfl

end Tickwright.Paper
