/-
# Theory.Watermark -- a high-water mark as a set of keys seen

A consumer that keeps one mark per key, the highest stamp it took, can tell a
redelivery from a new event only where the events of a key come in order.  A
log is kept newest first.

* `InOrder` is that order, redeliveries aside;
* `firsts` are the events above a floor, each at its first delivery;
* `Highest` says what a mark holds, and `covered_iff` that below the mark and
  delivered before are the same thing;
* `Gapless` is what a source must do for its events to come in order: when one is
  delivered, those of its key up to its stamp are in the log already.
-/
import Mathlib.Order.Lattice
import Mathlib.Data.List.Basic
import Mathlib.Data.List.Perm.Lattice

namespace Tickwright.Theory

set_option autoImplicit false

namespace Watermark

variable {α κ τ : Type*} [LinearOrder τ] (key : α → κ) (stamp : α → τ)

/-- The event, by its key and stamp, is in the log. -/
def Delivered (log : List α) (event : α) : Prop :=
  ∃ earlier ∈ log, key earlier = key event ∧ stamp earlier = stamp event

/-- Each event is a redelivery, or no earlier one of its key is past it. -/
def InOrder : List α → Prop
  | [] => True
  | event :: log =>
      (Delivered key stamp log event ∨
        ∀ earlier ∈ log, key earlier = key event → stamp earlier ≤ stamp event) ∧ InOrder log

/-- The event is above the floor and delivered for the first time. -/
def Counts (floor : τ) (log : List α) (event : α) : Prop :=
  floor < stamp event ∧ ¬ Delivered key stamp log event

instance [DecidableEq κ] (log : List α) (event : α) : Decidable (Delivered key stamp log event) := by
  unfold Delivered
  infer_instance

instance [DecidableEq κ] (floor : τ) (log : List α) (event : α) :
    Decidable (Counts key stamp floor log event) := by
  unfold Counts
  infer_instance

/-- The events above the floor, each at its first delivery. -/
def firsts [DecidableEq κ] (floor : τ) : List α → List α
  | [] => []
  | event :: log =>
      if Counts key stamp floor log event then event :: firsts floor log else firsts floor log

/-- The mark is the largest of the stamps, none of none. -/
def Highest : Option τ → List τ → Prop
  | none, stamps => stamps = []
  | some mark, stamps => mark ∈ stamps ∧ ∀ other ∈ stamps, other ≤ mark

/-- What the source made of an event's key, up to its stamp, is delivered with it or
before it. -/
def Gapless (source : List α) : List α → Prop
  | [] => True
  | event :: log =>
      (∀ made ∈ source, key made = key event → stamp made ≤ stamp event →
        Delivered key stamp (event :: log) made) ∧ Gapless source log

theorem inOrder_tail {first second : List α} (inOrder : InOrder key stamp (first ++ second)) :
    InOrder key stamp second := by
  induction first with
  | nil => exact inOrder
  | cons event rest ih => exact ih inOrder.2

variable [DecidableEq κ] {floor : τ} {log : List α}

/-- The stamps a key has counted. -/
def stampsOf (floor : τ) (log : List α) (k : κ) : List τ :=
  ((firsts key stamp floor log).filter fun event => decide (key event = k)).map stamp

theorem mem_firsts {event : α} (member : event ∈ firsts key stamp floor log) :
    event ∈ log ∧ floor < stamp event := by
  induction log with
  | nil => cases member
  | cons first rest ih =>
      unfold firsts at member
      split at member
      · rename_i counts
        rcases List.mem_cons.mp member with rfl | later
        · exact ⟨List.mem_cons_self, counts.1⟩
        · exact ⟨List.mem_cons_of_mem _ (ih later).1, (ih later).2⟩
      · exact ⟨List.mem_cons_of_mem _ (ih member).1, (ih member).2⟩

/-- Whatever was delivered above the floor was counted once. -/
theorem delivered_counted {event : α} (delivered : Delivered key stamp log event)
    (above : floor < stamp event) :
    Delivered key stamp (firsts key stamp floor log) event := by
  induction log with
  | nil =>
      obtain ⟨_, none_, _⟩ := delivered
      cases none_
  | cons first rest ih =>
      obtain ⟨earlier, member, sameKey, sameStamp⟩ := delivered
      have before (there : Delivered key stamp rest event) :
          Delivered key stamp (firsts key stamp floor (first :: rest)) event := by
        obtain ⟨held, counted, same⟩ := ih there
        unfold firsts
        split
        · exact ⟨held, List.mem_cons_of_mem _ counted, same⟩
        · exact ⟨held, counted, same⟩
      rcases List.mem_cons.mp member with rfl | later
      · by_cases seen : Delivered key stamp rest earlier
        · obtain ⟨other, held, otherKey, otherStamp⟩ := seen
          exact before ⟨other, held, otherKey.trans sameKey, otherStamp.trans sameStamp⟩
        · refine ⟨earlier, ?_, sameKey, sameStamp⟩
          unfold firsts
          rw [if_pos ⟨by rw [sameStamp]; exact above, seen⟩]
          exact List.mem_cons_self
      · exact before ⟨earlier, later, sameKey, sameStamp⟩

/-- **At or below the mark is delivered before**, for an event that comes in
order. -/
theorem covered_iff {mark : Option τ} {event : α}
    (highest : Highest mark (stampsOf key stamp floor log (key event)))
    (inOrder : InOrder key stamp (event :: log)) (above : floor < stamp event) :
    (mark.any fun applied => decide (stamp event ≤ applied)) = true ↔
      Delivered key stamp log event := by
  constructor
  · intro covered
    cases mark with
    | none => cases covered
    | some applied =>
        have below : stamp event ≤ applied := of_decide_eq_true covered
        obtain ⟨earlier, member, is⟩ := List.mem_map.mp highest.1
        obtain ⟨counted, named⟩ := List.mem_filter.mp member
        have sameKey : key earlier = key event := of_decide_eq_true named
        rcases inOrder.1 with delivered | ordered
        · exact delivered
        · have held := (mem_firsts key stamp counted).1
          refine ⟨earlier, held, sameKey, le_antisymm (ordered earlier held sameKey) ?_⟩
          rw [is]
          exact below
  · intro delivered
    obtain ⟨earlier, counted, sameKey, sameStamp⟩ :=
      delivered_counted key stamp delivered above
    have member : stamp event ∈ stampsOf key stamp floor log (key event) := by
      rw [← sameStamp]
      exact List.mem_map_of_mem (List.mem_filter.mpr ⟨counted, decide_eq_true sameKey⟩)
    cases mark with
    | none =>
        rw [show stampsOf key stamp floor log (key event) = [] from highest] at member
        cases member
    | some applied => exact decide_eq_true (highest.2 _ member)

/-- **A counted event is its key's new mark, and leaves every other.** -/
theorem highest_counts {mark : Option τ} {event : α} (counts : Counts key stamp floor log event)
    (inOrder : InOrder key stamp (event :: log)) (k : κ)
    (highest : Highest mark (stampsOf key stamp floor log k)) :
    Highest (if key event = k then some (stamp event) else mark)
      (stampsOf key stamp floor (event :: log) k) := by
  unfold stampsOf firsts
  rw [if_pos counts]
  by_cases here : key event = k
  · rw [if_pos here, List.filter_cons_of_pos (by simpa using here), List.map_cons]
    refine ⟨List.mem_cons_self, fun other member => ?_⟩
    rcases List.mem_cons.mp member with rfl | later
    · exact le_refl _
    · obtain ⟨earlier, held, rfl⟩ := List.mem_map.mp later
      obtain ⟨counted, named⟩ := List.mem_filter.mp held
      have sameKey : key earlier = key event := (of_decide_eq_true named).trans here.symm
      exact (inOrder.1.resolve_left counts.2) earlier (mem_firsts key stamp counted).1 sameKey
  · rw [if_neg here, List.filter_cons_of_neg (by simpa using here)]
    exact highest

theorem firsts_counts {event : α} (counts : Counts key stamp floor log event) :
    firsts key stamp floor (event :: log) = event :: firsts key stamp floor log := by
  conv_lhs => unfold firsts
  rw [if_pos counts]

theorem firsts_dropped {event : α} (dropped : ¬ Counts key stamp floor log event) :
    firsts key stamp floor (event :: log) = firsts key stamp floor log := by
  conv_lhs => unfold firsts
  rw [if_neg dropped]

/-- A source of distinct events that is delivered whole is counted whole. -/
theorem firsts_perm {source : List α} (distinct : (source.map fun e => (key e, stamp e)).Nodup)
    (known : ∀ event ∈ log, event ∈ source)
    (whole : ∀ event ∈ source, Delivered key stamp log event) :
    (firsts key stamp floor log).Perm (source.filter fun event => decide (floor < stamp event)) := by
  have same {one other : α} (first : one ∈ source) (second : other ∈ source)
      (keys : key one = key other) (stamps : stamp one = stamp other) : one = other :=
    List.inj_on_of_nodup_map distinct first second (Prod.ext keys stamps)
  have nodup : (firsts key stamp floor log).Nodup := by
    clear whole
    induction log with
    | nil => exact List.nodup_nil
    | cons event rest ih =>
        have tail := ih fun e member => known e (List.mem_cons_of_mem _ member)
        unfold firsts
        split
        · rename_i counts
          refine List.nodup_cons.mpr ⟨fun again => counts.2 ?_, tail⟩
          exact ⟨event, (mem_firsts key stamp again).1, rfl, rfl⟩
        · exact tail
  refine (List.perm_ext_iff_of_nodup nodup (distinct.of_map.filter _)).mpr fun event => ?_
  constructor
  · intro counted
    obtain ⟨member, above⟩ := mem_firsts key stamp counted
    exact List.mem_filter.mpr ⟨known event member, decide_eq_true above⟩
  · intro made
    obtain ⟨member, above⟩ := List.mem_filter.mp made
    obtain ⟨held, counted, keys, stamps⟩ :=
      delivered_counted key stamp (whole event member) (of_decide_eq_true above)
    rwa [← same (known held (mem_firsts key stamp counted).1) member keys stamps]

/-! ## A source without gaps -/

section Source

omit [DecidableEq κ]

variable {source : List α}

omit [LinearOrder τ] in
theorem Delivered.mono {log more : List α} {event : α} (delivered : Delivered key stamp log event)
    (held : ∀ earlier ∈ log, earlier ∈ more) : Delivered key stamp more event := by
  obtain ⟨earlier, member, same⟩ := delivered
  exact ⟨earlier, held earlier member, same⟩

theorem gapless_tail {first second : List α} (gapless : Gapless key stamp source (first ++ second)) :
    Gapless key stamp source second := by
  induction first with
  | nil => exact gapless
  | cons event rest ih => exact ih gapless.2

/-- What a gapless log holds of an event's key, it held when the event came. -/
theorem Gapless.upTo {log : List α} {event made : α} (gapless : Gapless key stamp source log)
    (held : event ∈ log) (known : made ∈ source) (keys : key made = key event)
    (upTo : stamp made ≤ stamp event) : Delivered key stamp log made := by
  induction log with
  | nil => cases held
  | cons first rest ih =>
      rcases List.mem_cons.mp held with rfl | later
      · exact gapless.1 made known keys upTo
      · exact (ih gapless.2 later).mono key stamp fun _ => List.mem_cons_of_mem _

/-- **Without gaps the events come in order.** -/
theorem Gapless.inOrder {log : List α} (gapless : Gapless key stamp source log)
    (known : ∀ event ∈ log, event ∈ source) : InOrder key stamp log := by
  induction log with
  | nil => trivial
  | cons event rest ih =>
      refine ⟨?_, ih gapless.2 fun e member => known e (List.mem_cons_of_mem _ member)⟩
      by_cases passed : ∃ earlier ∈ rest, key earlier = key event ∧ stamp event < stamp earlier
      · obtain ⟨earlier, held, keys, past⟩ := passed
        exact Or.inl (gapless.2.upTo key stamp held (known event List.mem_cons_self) keys.symm
          past.le)
      · refine Or.inr fun earlier held keys => not_lt.mp fun past => passed ?_
        exact ⟨earlier, held, keys, past⟩

/-- On a log that holds more, events come without gaps still. -/
theorem Gapless.onto {first log more : List α} (gapless : Gapless key stamp source (first ++ log))
    (held : ∀ event ∈ log, event ∈ more) (base : Gapless key stamp source more) :
    Gapless key stamp source (first ++ more) := by
  induction first with
  | nil => exact base
  | cons event rest ih =>
      refine ⟨fun made known keys upTo => ?_, ih gapless.2⟩
      refine (gapless.1 made known keys upTo).mono key stamp fun earlier member => ?_
      have member : earlier ∈ (event :: rest) ++ log := member
      exact List.mem_append.mpr ((List.mem_append.mp member).imp_right (held earlier))

/-- What the log holds can be delivered again. -/
theorem Gapless.again {first log : List α} (gapless : Gapless key stamp source log)
    (held : ∀ event ∈ first, event ∈ log) : Gapless key stamp source (first ++ log) := by
  induction first with
  | nil => exact gapless
  | cons event rest ih =>
      have tail := ih fun e member => held e (List.mem_cons_of_mem _ member)
      refine ⟨fun made known keys upTo => ?_, tail⟩
      refine (gapless.upTo key stamp (held event List.mem_cons_self) known keys upTo).mono key stamp ?_
      exact fun earlier member => List.mem_cons_of_mem _ (List.mem_append_right _ member)

/-- The source goes on past what is delivered. -/
theorem Gapless.grows {log more : List α} (gapless : Gapless key stamp source log)
    (later : ∀ event ∈ log, ∀ made ∈ more, stamp event ≤ stamp made) :
    Gapless key stamp (source ++ more) log := by
  induction log with
  | nil => trivial
  | cons event rest ih =>
      refine ⟨fun made known keys upTo => ?_,
        ih gapless.2 fun e member => later e (List.mem_cons_of_mem _ member)⟩
      rcases List.mem_append.mp known with old | new
      · exact gapless.1 made old keys upTo
      · exact ⟨event, List.mem_cons_self, keys.symm,
          le_antisymm (later event List.mem_cons_self made new) upTo⟩

/-- **A sorted batch that completes the log is delivered without gaps.** -/
theorem Gapless.sorted {log batch : List α} (gapless : Gapless key stamp source log)
    (sorted : batch.Pairwise fun first second => stamp first ≤ stamp second)
    (rest : ∀ made ∈ source, Delivered key stamp log made ∨ made ∈ batch) :
    Gapless key stamp source (batch.reverse ++ log) := by
  induction batch generalizing log with
  | nil => exact gapless
  | cons event later ih =>
      obtain ⟨first, tail⟩ := List.pairwise_cons.mp sorted
      rw [List.reverse_cons, List.append_assoc]
      have grown : Gapless key stamp source (event :: log) → _ := fun more => ih more tail
      refine grown ⟨fun made known keys upTo => ?_, gapless⟩ ?_
      · rcases rest made known with delivered | member
        · exact delivered.mono key stamp fun _ => List.mem_cons_of_mem _
        · rcases List.mem_cons.mp member with rfl | after
          · exact ⟨made, List.mem_cons_self, rfl, rfl⟩
          · exact ⟨event, List.mem_cons_self, keys.symm, le_antisymm (first made after) upTo⟩
      · intro made known
        rcases rest made known with delivered | member
        · exact Or.inl (delivered.mono key stamp fun _ => List.mem_cons_of_mem _)
        · rcases List.mem_cons.mp member with rfl | after
          · exact Or.inl ⟨made, List.mem_cons_self, rfl, rfl⟩
          · exact Or.inr after

end Source

/-- Only the order within each key matters. -/
theorem gapless_iff_filter {source log : List α} :
    Gapless key stamp source log ↔
      ∀ k, Gapless key stamp source (log.filter fun event => decide (key event = k)) := by
  have among (log : List α) (made : α) :
      Delivered key stamp (log.filter fun event => decide (key event = key made)) made ↔
        Delivered key stamp log made := by
    constructor
    · exact fun there => there.mono key stamp fun _ member => List.mem_of_mem_filter member
    · rintro ⟨earlier, member, keys, stamps⟩
      exact ⟨earlier, List.mem_filter.mpr ⟨member, decide_eq_true keys⟩, keys, stamps⟩
  induction log with
  | nil => exact ⟨fun _ _ => trivial, fun _ => trivial⟩
  | cons event rest ih =>
      constructor
      · intro gapless k
        by_cases here : key event = k
        · subst here
          rw [List.filter_cons_of_pos (by simp)]
          refine ⟨fun made known keys upTo => ?_, ih.mp gapless.2 _⟩
          have there := (among (event :: rest) made).mpr (gapless.1 made known keys upTo)
          rwa [keys, List.filter_cons_of_pos (by simp)] at there
        · rw [List.filter_cons_of_neg (by simpa using here)]
          exact ih.mp gapless.2 k
      · intro each
        refine ⟨fun made known keys upTo => ?_, ih.mpr fun k => ?_⟩
        · have here := each (key event)
          rw [List.filter_cons_of_pos (by simp)] at here
          have there := here.1 made known keys upTo
          rw [← List.filter_cons_of_pos (by simp), ← keys] at there
          exact (among (event :: rest) made).mp there
        · have here := each k
          by_cases same : key event = k
          · rw [List.filter_cons_of_pos (by simpa using same)] at here
            exact here.2
          · rwa [List.filter_cons_of_neg (by simpa using same)] at here

end Watermark

end Tickwright.Theory
