/-
# Theory.Gather -- one running value per key, and sums with unknown terms

`Dict.gather` is the loop that keeps one running value under each item's key; what it
leaves under a key is the fold over the items of that key alone (`Dict.get_gather`).
`Dict.mapKeyed` is a comprehension over a dictionary's items.

`summed` adds terms of which some may be unknown, and one unknown term makes the sum
unknown.  Where it is known, changing one term for another known one moves the sum by
the difference (`summed_replace`).
-/
import Tickwright.Theory.Dict

namespace Tickwright.Theory

set_option autoImplicit false

universe u v w x

namespace Dict

variable {ι : Type x} {κ : Type u} {α : Type v} {β : Type w} [DecidableEq κ]

/-- Keep one running value under each key, started at `zero`. -/
def gather (key : ι → κ) (zero : α) (add : α → ι → α) (items : List ι) : Dict κ α :=
  items.foldl (fun running item =>
    running.set (key item) (add ((running.get (key item)).getD zero) item)) empty

theorem get_gather_from (key : ι → κ) (zero : α) (add : α → ι → α) (items : List ι)
    (running : Dict κ α) (k : κ) :
    (items.foldl (fun running item =>
      running.set (key item) (add ((running.get (key item)).getD zero) item)) running).get k =
      if items.filter (fun item => key item = k) = [] then running.get k
      else some ((items.filter fun item => key item = k).foldl add
        ((running.get k).getD zero)) := by
  induction items generalizing running with
  | nil => rfl
  | cons item rest ih =>
      rw [List.foldl_cons, ih]
      by_cases here : key item = k
      · subst here
        rw [get_set_self, List.filter_cons_of_pos (by simp)]
        simp only [Option.getD_some, reduceCtorEq, if_false, List.foldl_cons]
        split
        · rename_i none_
          rw [none_]
          rfl
        · rfl
      · rw [get_set_ne _ _ here, List.filter_cons_of_neg (by simpa using here)]

/-- **What is left under a key is the fold over its own items.** -/
theorem get_gather (key : ι → κ) (zero : α) (add : α → ι → α) (items : List ι) (k : κ) :
    (gather key zero add items).get k =
      if items.filter (fun item => key item = k) = [] then none
      else some ((items.filter fun item => key item = k).foldl add zero) := by
  unfold gather
  rw [get_gather_from]
  rfl

/-- Rewrite every value, reading its key. -/
def mapKeyed (f : κ → α → β) (d : Dict κ α) : Dict κ β :=
  ⟨d.entries.map fun entry => (entry.1, f entry.1 entry.2), by
    rw [List.map_map]
    exact d.nodup⟩

theorem get_mapKeyed (f : κ → α → β) (d : Dict κ α) (k : κ) :
    (d.mapKeyed f).get k = (d.get k).map (f k) := by
  obtain ⟨entries, nodup⟩ := d
  simp only [get, mapKeyed]
  clear nodup
  induction entries with
  | nil => rfl
  | cons entry rest ih =>
      simp only [List.map_cons, find]
      split
      · rename_i same
        rw [same]
        rfl
      · exact ih

omit [DecidableEq κ] in
theorem values_mapKeyed (f : κ → α → β) (d : Dict κ α) :
    (d.mapKeyed f).values = d.entries.map fun entry => f entry.1 entry.2 := by
  simp only [values, mapKeyed, List.map_map]
  rfl

end Dict

/-! ## Sums with unknown terms -/

section Known

variable {ι : Type x} {M : Type u} [AddCommGroup M]

/-- The running sum with one more term, known where both are. -/
def total (running term : Option M) : Option M :=
  running.bind fun sum => term.map fun term => sum + term

/-- The sum, known where every term is. -/
def summed (terms : List (Option M)) : Option M := terms.foldl total (some 0)

theorem total_eq_some {running term : Option M} {sum : M} :
    total running term = some sum ↔
      ∃ a b, running = some a ∧ term = some b ∧ sum = a + b := by
  cases running with
  | none => simp [total]
  | some a =>
      cases term with
      | none => simp [total]
      | some b => simp [total, eq_comm]

theorem foldl_total_none (terms : List (Option M)) : terms.foldl total none = none := by
  induction terms with
  | nil => rfl
  | cons term rest ih => exact ih

/-- A known sum has known terms only, and started higher it ends higher. -/
theorem foldl_total (terms : List (Option M)) (a b sum : M)
    (known : terms.foldl total (some a) = some sum) :
    terms.foldl total (some b) = some (sum + (b - a)) := by
  induction terms generalizing a b with
  | nil =>
      cases known
      exact congrArg some (by abel)
  | cons term rest ih =>
      cases term with
      | none =>
          rw [List.foldl_cons] at known
          exact absurd ((foldl_total_none rest).symm.trans known) nofun
      | some x =>
          have moved := ih (a + x) (b + x) known
          rw [List.foldl_cons]
          exact moved.trans (congrArg some (by abel))

/-- **One term changed for another known one moves the sum by the difference.** -/
theorem summed_replace {items : List ι} (nodup : items.Nodup) {before after : ι → Option M}
    {item : ι} (member : item ∈ items) {old new sum : M}
    (same : ∀ other ∈ items, other ≠ item → after other = before other)
    (was : before item = some old) (is : after item = some new)
    (known : summed (items.map before) = some sum) :
    summed (items.map after) = some (sum + (new - old)) := by
  unfold summed at known ⊢
  generalize (0 : M) = start at known ⊢
  induction items generalizing start with
  | nil => cases member
  | cons first rest ih =>
      obtain ⟨absent, nodupRest⟩ := List.nodup_cons.mp nodup
      rw [List.map_cons, List.foldl_cons] at known ⊢
      by_cases here : first = item
      · subst here
        have off : rest.map after = rest.map before :=
          List.map_congr_left fun other there =>
            same other (List.mem_cons_of_mem _ there) fun eq => absent (eq ▸ there)
        rw [is, off]
        rw [was] at known
        have moved := foldl_total (rest.map before) (start + old) (start + new) sum known
        exact moved.trans (congrArg some (by abel))
      · have later : item ∈ rest := by
          rcases List.mem_cons.mp member with eq | later
          · exact absurd eq.symm here
          · exact later
        rw [same first List.mem_cons_self here]
        cases term : before first with
        | none =>
            rw [term] at known
            exact absurd ((foldl_total_none _).symm.trans known) nofun
        | some x =>
            rw [term] at known
            exact ih nodupRest later
              (fun other there => same other (List.mem_cons_of_mem _ there)) _ known

end Known

end Tickwright.Theory
