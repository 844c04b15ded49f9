/-
# Theory.Dict -- a dictionary that remembers insertion order

A `Dict` is a list of key-value pairs with no key twice.  `set` writes over the
entry its key already has, in place, and files a new key last, so iteration
follows the order in which the keys first arrived.  A table with a primary key
that is only ever upserted behaves the same way.

Reads are stated through `get`: `get_set` is the one lemma a reader of a
written dictionary needs.  Folds over the values are stated through `sum`:
`sum_set` moves a sum by the difference between the new value and the one it
replaced, so a fold that is kept beside the dictionary can be kept exact.

Two dictionaries with the same `get` may iterate in different orders.
`Same` is that weaker equality; sums do not see the difference (`Same.sum_eq`).
-/
import Mathlib.Algebra.BigOperators.Group.List.Basic
import Mathlib.Algebra.Order.BigOperators.Group.List
import Mathlib.Data.List.Dedup
import Mathlib.Data.List.Induction
import Mathlib.Data.List.Nodup
import Mathlib.Data.List.Sort
import Mathlib.Tactic.Abel

namespace Tickwright.Theory

set_option autoImplicit false

universe u v w

/-- Key-value pairs in insertion order, no key twice. -/
structure Dict (κ : Type u) (α : Type v) where
  entries : List (κ × α)
  nodup : (entries.map Prod.fst).Nodup
deriving DecidableEq

namespace Dict

variable {κ : Type u} {α : Type v} {β : Type w}

@[ext]
theorem ext {d e : Dict κ α} (h : d.entries = e.entries) : d = e := by
  cases d; cases e; cases h; rfl

/-- The dictionary that holds nothing. -/
def empty : Dict κ α := ⟨[], List.nodup_nil⟩

instance : Inhabited (Dict κ α) := ⟨empty⟩

/-- The keys, oldest first. -/
def keys (d : Dict κ α) : List κ := d.entries.map Prod.fst

/-- The values, in the order of their keys. -/
def values (d : Dict κ α) : List α := d.entries.map Prod.snd

theorem keys_nodup (d : Dict κ α) : d.keys.Nodup := d.nodup

section Lookup

variable [DecidableEq κ]

/-- The value of the first entry under `k`. -/
def find (k : κ) : List (κ × α) → Option α
  | [] => none
  | (k', x) :: rest => if k' = k then some x else find k rest

/-- Write over the entry under `k`, or add one at the end. -/
def put (k : κ) (x : α) : List (κ × α) → List (κ × α)
  | [] => [(k, x)]
  | (k', y) :: rest => if k' = k then (k, x) :: rest else (k', y) :: put k x rest

theorem find_put (k k' : κ) (x : α) (es : List (κ × α)) :
    find k' (put k x es) = if k = k' then some x else find k' es := by
  induction es with
  | nil => simp only [put, find]
  | cons e rest ih =>
      obtain ⟨j, y⟩ := e
      by_cases same : j = k
      · subst same
        simp only [put, if_true, find]
        split <;> rfl
      · simp only [put, same, if_false, find, ih]
        by_cases here : j = k'
        · subst here
          simp only [if_true, if_neg (Ne.symm same)]
        · simp only [here, if_false]

theorem mem_keys_put (k k' : κ) (x : α) (es : List (κ × α)) :
    k' ∈ (put k x es).map Prod.fst ↔ k' = k ∨ k' ∈ es.map Prod.fst := by
  induction es with
  | nil => simp [put]
  | cons e rest ih =>
      obtain ⟨j, y⟩ := e
      by_cases same : j = k
      · subst same
        simp [put]
      · simp only [put, same, if_false, List.map_cons, List.mem_cons, ih]
        tauto

theorem nodup_put (k : κ) (x : α) (es : List (κ × α)) (nodup : (es.map Prod.fst).Nodup) :
    ((put k x es).map Prod.fst).Nodup := by
  induction es with
  | nil => simp [put]
  | cons e rest ih =>
      obtain ⟨j, y⟩ := e
      rw [List.map_cons, List.nodup_cons] at nodup
      by_cases same : j = k
      · subst same
        simp only [put, if_true, List.map_cons, List.nodup_cons]
        exact nodup
      · simp only [put, same, if_false, List.map_cons, List.nodup_cons]
        refine ⟨?_, ih nodup.2⟩
        rw [mem_keys_put]
        rintro (rfl | there)
        · exact same rfl
        · exact nodup.1 there

/-- The value under `k`. -/
def get (d : Dict κ α) (k : κ) : Option α := find k d.entries

/-- Write `x` under `k`: in place if `k` is there, else last. -/
def set (d : Dict κ α) (k : κ) (x : α) : Dict κ α :=
  ⟨put k x d.entries, nodup_put k x d.entries d.nodup⟩

/-! ## Reads -/

@[simp] theorem get_empty (k : κ) : (empty : Dict κ α).get k = none := rfl

/-- **A read of a written dictionary.** -/
theorem get_set (d : Dict κ α) (k k' : κ) (x : α) :
    (d.set k x).get k' = if k = k' then some x else d.get k' :=
  find_put k k' x d.entries

@[simp] theorem get_set_self (d : Dict κ α) (k : κ) (x : α) : (d.set k x).get k = some x := by
  rw [get_set, if_pos rfl]

theorem get_set_ne (d : Dict κ α) {k k' : κ} (x : α) (ne : k ≠ k') :
    (d.set k x).get k' = d.get k' := by
  rw [get_set, if_neg ne]

theorem find_some_iff (k : κ) (x : α) (es : List (κ × α)) (nodup : (es.map Prod.fst).Nodup) :
    find k es = some x ↔ (k, x) ∈ es := by
  induction es with
  | nil => simp [find]
  | cons e rest ih =>
      obtain ⟨j, y⟩ := e
      rw [List.map_cons, List.nodup_cons] at nodup
      by_cases same : j = k
      · subst same
        simp only [find, if_true, Option.some.injEq, List.mem_cons, Prod.mk.injEq, true_and]
        constructor
        · intro h; exact Or.inl h.symm
        · rintro (h | h)
          · exact h.symm
          · exact absurd (List.mem_map_of_mem h) nodup.1
      · have ne : ¬ k = j := fun h => same h.symm
        simp only [find, same, if_false, List.mem_cons, Prod.mk.injEq, ne, false_and, false_or]
        exact ih nodup.2

theorem get_eq_some (d : Dict κ α) (k : κ) (x : α) : d.get k = some x ↔ (k, x) ∈ d.entries :=
  find_some_iff k x d.entries d.nodup

theorem mem_values (d : Dict κ α) (x : α) : x ∈ d.values ↔ ∃ k, d.get k = some x := by
  simp only [values, List.mem_map, get_eq_some]
  constructor
  · rintro ⟨⟨k, y⟩, member, rfl⟩; exact ⟨k, member⟩
  · rintro ⟨k, member⟩; exact ⟨(k, x), member, rfl⟩

theorem mem_keys (d : Dict κ α) (k : κ) : k ∈ d.keys ↔ ∃ x, d.get k = some x := by
  simp only [keys, List.mem_map, get_eq_some]
  constructor
  · rintro ⟨⟨j, y⟩, member, rfl⟩; exact ⟨y, member⟩
  · rintro ⟨x, member⟩; exact ⟨(k, x), member, rfl⟩

theorem get_eq_none (d : Dict κ α) (k : κ) : d.get k = none ↔ k ∉ d.keys := by
  rw [mem_keys]
  cases h : d.get k with
  | none => simp
  | some x => simp

/-- Writing back what is there changes nothing. -/
theorem set_get_self (d : Dict κ α) {k : κ} {x : α} (there : d.get k = some x) :
    d.set k x = d := by
  apply ext
  obtain ⟨es, nodup⟩ := d
  simp only [get] at there
  simp only [set]
  clear nodup
  induction es with
  | nil => simp [find] at there
  | cons e rest ih =>
      obtain ⟨j, y⟩ := e
      by_cases same : j = k
      · subst same
        simp only [find, if_true, Option.some.injEq] at there
        simp only [put, if_true, there]
      · simp only [find, same, if_false] at there
        simp only [put, same, if_false, ih there]

theorem mem_keys_set (d : Dict κ α) (k k' : κ) (x : α) :
    k' ∈ (d.set k x).keys ↔ k' = k ∨ k' ∈ d.keys :=
  mem_keys_put k k' x d.entries

/-- Write the pairs in order. -/
def setAll (d : Dict κ α) (pairs : List (κ × α)) : Dict κ α :=
  pairs.foldl (fun d pair => d.set pair.1 pair.2) d

@[simp] theorem setAll_nil (d : Dict κ α) : d.setAll [] = d := rfl

@[simp] theorem setAll_cons (d : Dict κ α) (pair : κ × α) (rest : List (κ × α)) :
    d.setAll (pair :: rest) = (d.set pair.1 pair.2).setAll rest := rfl

theorem setAll_append (d : Dict κ α) (first second : List (κ × α)) :
    d.setAll (first ++ second) = (d.setAll first).setAll second :=
  List.foldl_append

/-- A batch write leaves a key it does not name. -/
theorem get_setAll_of_not_mem {d : Dict κ α} {pairs : List (κ × α)} {k : κ}
    (absent : k ∉ pairs.map Prod.fst) : (d.setAll pairs).get k = d.get k := by
  induction pairs generalizing d with
  | nil => rfl
  | cons pair rest ih =>
      simp only [List.map_cons, List.mem_cons, not_or] at absent
      rw [setAll_cons, ih absent.2, get_set_ne d _ (Ne.symm absent.1)]

/-- What a batch write leaves at a key it names does not depend on where it
started. -/
theorem get_setAll_of_mem {d e : Dict κ α} {pairs : List (κ × α)} {k : κ}
    (named : k ∈ pairs.map Prod.fst) : (d.setAll pairs).get k = (e.setAll pairs).get k := by
  induction pairs generalizing d e with
  | nil => cases named
  | cons pair rest ih =>
      rw [setAll_cons, setAll_cons]
      by_cases later : k ∈ rest.map Prod.fst
      · exact ih later
      · simp only [List.map_cons, List.mem_cons, later, or_false] at named
        rw [get_setAll_of_not_mem later, get_setAll_of_not_mem later, named, get_set_self,
          get_set_self]

/-- **A batch write reads as its own last word on a key, else as what was there.** -/
theorem get_setAll (d : Dict κ α) (pairs : List (κ × α)) (k : κ) :
    (d.setAll pairs).get k = ((empty.setAll pairs).get k).or (d.get k) := by
  by_cases named : k ∈ pairs.map Prod.fst
  · rw [get_setAll_of_mem (e := empty) named]
    have there : ∃ x, (empty.setAll pairs).get k = some x := by
      clear d
      induction pairs using List.reverseRecOn with
      | nil => cases named
      | append_singleton first pair ih =>
          rw [setAll_append, setAll_cons, setAll_nil, get_set]
          split
          · exact ⟨_, rfl⟩
          · rename_i ne
            refine ih ?_
            simp only [List.map_append, List.map_cons, List.map_nil, List.mem_append,
              List.mem_singleton] at named
            exact named.resolve_right (Ne.symm ne)
    obtain ⟨x, there⟩ := there
    rw [there, Option.some_or]
  · rw [get_setAll_of_not_mem named, get_setAll_of_not_mem named, get_empty, Option.none_or]

/-- A batch that names no key twice leaves each pair it writes. -/
theorem get_setAll_pair {d : Dict κ α} {pairs : List (κ × α)}
    (nodup : (pairs.map Prod.fst).Nodup) {pair : κ × α} (member : pair ∈ pairs) :
    (d.setAll pairs).get pair.1 = some pair.2 := by
  induction pairs generalizing d with
  | nil => cases member
  | cons first rest ih =>
      obtain ⟨absent, nodupRest⟩ := List.nodup_cons.mp nodup
      rcases List.mem_cons.mp member with rfl | later
      · rw [setAll_cons, get_setAll_of_not_mem absent, get_set_self]
      · rw [setAll_cons, ih nodupRest later]

/-- A key every write of a batch gives one value keeps it. -/
theorem get_setAll_const {d : Dict κ α} {pairs : List (κ × α)} {k : κ} {x : α}
    (constant : ∀ pair ∈ pairs, pair.1 = k → pair.2 = x) (there : d.get k = some x) :
    (d.setAll pairs).get k = some x := by
  induction pairs generalizing d with
  | nil => exact there
  | cons pair rest ih =>
      rw [setAll_cons]
      apply ih fun p member => constant p (List.mem_cons_of_mem _ member)
      rw [get_set]
      split
      · rename_i same
        rw [constant pair List.mem_cons_self same]
      · exact there

/-- A batch of new keys, none twice, is filed as it stands. -/
theorem entries_setAll {d : Dict κ α} {pairs : List (κ × α)}
    (nodup : ((d.entries ++ pairs).map Prod.fst).Nodup) :
    (d.setAll pairs).entries = d.entries ++ pairs := by
  induction pairs generalizing d with
  | nil => rw [setAll_nil, List.append_nil]
  | cons pair rest ih =>
      have absent : pair.1 ∉ d.entries.map Prod.fst := by
        rw [List.map_append, List.nodup_append] at nodup
        intro there
        exact nodup.2.2 _ there _ (List.mem_map_of_mem List.mem_cons_self) rfl
      have filed : (d.set pair.1 pair.2).entries = d.entries ++ [pair] := by
        show put pair.1 pair.2 d.entries = _
        generalize d.entries = es at absent
        clear nodup
        induction es with
        | nil => rfl
        | cons e rest ih =>
            simp only [List.map_cons, List.mem_cons, not_or] at absent
            simp only [put, if_neg (Ne.symm absent.1), ih absent.2, List.cons_append]
      rw [setAll_cons, ih, filed, List.append_assoc, List.singleton_append]
      rw [filed, List.append_assoc, List.singleton_append]
      exact nodup

/-- Writing a dictionary's own entries over another. -/
theorem get_setAll_entries (d r : Dict κ α) (k : κ) :
    (d.setAll r.entries).get k = (r.get k).or (d.get k) := by
  obtain ⟨es, nodup⟩ := r
  simp only [get]
  induction es generalizing d with
  | nil => simp [find, setAll]
  | cons e rest ih =>
      obtain ⟨j, x⟩ := e
      rw [List.map_cons, List.nodup_cons] at nodup
      have tail := ih (d.set j x) nodup.2
      simp only [setAll_cons, find]
      by_cases same : j = k
      · subst same
        have absent : j ∉ rest.map Prod.fst := nodup.1
        have kept := get_setAll_of_not_mem (d := d.set j x) absent
        simp only [if_true, Option.some_or]
        exact kept.trans (get_set_self d j x)
      · simp only [same, if_false]
        rw [tail]
        have kept := get_set_ne d x same
        simp only [get] at kept
        rw [kept]

/-- Writing one dictionary's values at a list of keys over another. -/
theorem get_setAll_lookup (d e : Dict κ α) (ks : List κ) (k : κ) :
    (e.setAll (ks.filterMap fun j => (d.get j).map fun x => (j, x))).get k =
      if k ∈ ks then (d.get k).or (e.get k) else e.get k := by
  induction ks generalizing e with
  | nil => simp
  | cons j rest ih =>
      rw [List.filterMap_cons]
      cases here : d.get j with
      | none =>
          simp only [Option.map_none]
          rw [ih]
          by_cases same : k = j
          · subst same
            simp [here]
          · simp [same]
      | some x =>
          simp only [Option.map_some, setAll_cons]
          rw [ih]
          by_cases same : k = j
          · subst same
            simp [here]
          · simp [same, get_set_ne e x (Ne.symm same)]

/-! ## Removal -/

/-- Drop the entry under `k`. -/
def erase (d : Dict κ α) (k : κ) : Dict κ α :=
  ⟨d.entries.filter fun e => decide (e.1 ≠ k),
    d.nodup.sublist (List.filter_sublist.map Prod.fst)⟩

/-- **A read of a dictionary an entry was dropped from.** -/
theorem get_erase (d : Dict κ α) (k k' : κ) :
    (d.erase k).get k' = if k = k' then none else d.get k' := by
  have there : ∀ x, (d.erase k).get k' = some x ↔ k ≠ k' ∧ d.get k' = some x := by
    intro x
    rw [get_eq_some, get_eq_some, erase, List.mem_filter, decide_eq_true_eq]
    exact ⟨fun h => ⟨h.2.symm, h.1⟩, fun h => ⟨h.2, h.1.symm⟩⟩
  by_cases same : k = k'
  · rw [if_pos same]
    cases here : (d.erase k).get k' with
    | none => rfl
    | some x => exact absurd same ((there x).mp here).1
  · rw [if_neg same]
    cases here : d.get k' with
    | none =>
        cases left : (d.erase k).get k' with
        | none => rfl
        | some x => rw [((there x).mp left).2] at here; cases here
    | some x => exact (there x).mpr ⟨same, here⟩

@[simp] theorem get_erase_self (d : Dict κ α) (k : κ) : (d.erase k).get k = none := by
  rw [get_erase, if_pos rfl]

theorem get_erase_ne (d : Dict κ α) {k k' : κ} (ne : k ≠ k') :
    (d.erase k).get k' = d.get k' := by
  rw [get_erase, if_neg ne]

theorem keys_erase (d : Dict κ α) (k : κ) :
    (d.erase k).keys = d.keys.filter fun k' => decide (k' ≠ k) := by
  simp only [keys, erase, List.filter_map]
  rfl

/-- Dropping the first entry leaves the others as they are. -/
theorem entries_erase_head {d : Dict κ α} {k : κ} {x : α} {rest : List (κ × α)}
    (front : d.entries = (k, x) :: rest) : (d.erase k).entries = rest := by
  have nodup := d.nodup
  rw [front, List.map_cons, List.nodup_cons] at nodup
  simp only [erase, front, ne_eq, not_true_eq_false, decide_false, Bool.false_eq_true,
    not_false_eq_true, List.filter_cons_of_neg]
  refine List.filter_eq_self.mpr fun e member => decide_eq_true fun same => nodup.1 ?_
  exact List.mem_map.mpr ⟨e, member, same⟩

/-- **File `x` under `k`, last**: an entry already there gives up its place. -/
def refile (d : Dict κ α) (k : κ) (x : α) : Dict κ α := (d.erase k).set k x

theorem entries_refile (d : Dict κ α) (k : κ) (x : α) :
    (d.refile k x).entries = (d.erase k).entries ++ [(k, x)] := by
  have absent : k ∉ (d.erase k).keys := (get_eq_none _ k).mp (get_erase_self d k)
  have nodup : (((d.erase k).entries ++ [(k, x)]).map Prod.fst).Nodup := by
    rw [List.map_append, List.nodup_append]
    refine ⟨(d.erase k).nodup, List.nodup_singleton k, ?_⟩
    rintro k' there _ last rfl
    exact absent (by simpa [keys, List.mem_singleton.mp last] using there)
  exact entries_setAll nodup

theorem keys_refile (d : Dict κ α) (k : κ) (x : α) :
    (d.refile k x).keys = (d.keys.filter fun k' => decide (k' ≠ k)) ++ [k] := by
  rw [← keys_erase]
  simp [keys, entries_refile]

theorem values_refile (d : Dict κ α) (k : κ) (x : α) :
    (d.refile k x).values = (d.erase k).values ++ [x] := by
  simp [values, entries_refile]

theorem get_refile (d : Dict κ α) (k k' : κ) (x : α) :
    (d.refile k x).get k' = if k = k' then some x else d.get k' := by
  rw [refile, get_set]
  split
  · rfl
  · exact get_erase_ne d ‹_›

end Lookup

/-- The same entries, ordered by key. -/
def arrange (le : κ → κ → Prop) [DecidableRel le] (d : Dict κ α) : Dict κ α :=
  ⟨d.entries.insertionSort fun e e' => le e.1 e'.1, by
    have perm := List.perm_insertionSort (fun e e' : κ × α => le e.1 e'.1) d.entries
    exact (perm.map Prod.fst).nodup_iff.mpr d.nodup⟩

theorem get_arrange [DecidableEq κ] (le : κ → κ → Prop) [DecidableRel le] (d : Dict κ α)
    (k : κ) : (d.arrange le).get k = d.get k := by
  have there : ∀ x, (d.arrange le).get k = some x ↔ d.get k = some x := by
    intro x
    rw [get_eq_some, get_eq_some]
    exact (List.perm_insertionSort _ _).mem_iff
  cases here : d.get k with
  | none =>
      cases sorted : (d.arrange le).get k with
      | none => rfl
      | some x => rw [(there x).mp sorted] at here; cases here
  | some x => exact (there x).mpr here

/-! ## Images -/

/-- Apply `f` to every value. -/
def map (f : α → β) (d : Dict κ α) : Dict κ β :=
  ⟨d.entries.map fun e => (e.1, f e.2), by
    rw [List.map_map]; exact d.nodup⟩

theorem get_map [DecidableEq κ] (f : α → β) (d : Dict κ α) (k : κ) :
    (d.map f).get k = (d.get k).map f := by
  obtain ⟨es, nodup⟩ := d
  simp only [get, map]
  clear nodup
  induction es with
  | nil => rfl
  | cons e rest ih =>
      obtain ⟨j, y⟩ := e
      simp only [List.map_cons, find]
      split
      · rfl
      · exact ih

theorem map_set [DecidableEq κ] (f : α → β) (d : Dict κ α) (k : κ) (x : α) :
    (d.set k x).map f = (d.map f).set k (f x) := by
  apply ext
  obtain ⟨es, nodup⟩ := d
  simp only [map, set]
  clear nodup
  induction es with
  | nil => rfl
  | cons e rest ih =>
      obtain ⟨j, y⟩ := e
      by_cases same : j = k
      · simp only [put, same, if_true, List.map_cons]
      · simp only [put, same, if_false, List.map_cons, ih]

theorem map_setAll [DecidableEq κ] (f : α → β) (d : Dict κ α) (pairs : List (κ × α)) :
    (d.setAll pairs).map f = (d.map f).setAll (pairs.map fun pair => (pair.1, f pair.2)) := by
  induction pairs generalizing d with
  | nil => rfl
  | cons pair rest ih =>
      rw [setAll_cons, ih, List.map_cons, setAll_cons, map_set]

theorem values_map (f : α → β) (d : Dict κ α) : (d.map f).values = d.values.map f := by
  simp only [values, map, List.map_map]
  rfl

/-! ## Tables -/

section Table

variable {κ' : Type w}

/-- The same entries under another key, each value encoded. -/
def encode (key : κ → κ') (inj : Function.Injective key) (f : α → β) (d : Dict κ α) :
    Dict κ' β :=
  ⟨d.entries.map fun e => (key e.1, f e.2), by
    have keys : (d.entries.map fun e => (key e.1, f e.2)).map Prod.fst =
        (d.entries.map Prod.fst).map key := by
      rw [List.map_map, List.map_map]
      rfl
    rw [keys]
    exact d.nodup.map inj⟩

/-- Read every entry back; `none` if one does not read. -/
def decode [DecidableEq κ] (readKey : κ' → Option κ) (read : β → Option α) (d : Dict κ' β) :
    Option (Dict κ α) :=
  (d.entries.mapM fun e => (readKey e.1).bind fun k => (read e.2).map fun x => (k, x)).bind
    fun es => if nodup : (es.map Prod.fst).Nodup then some ⟨es, nodup⟩ else none

variable [DecidableEq κ] {key : κ → κ'} {f : α → β}

theorem get_encode [DecidableEq κ'] (inj : Function.Injective key) (d : Dict κ α) (k : κ) :
    (d.encode key inj f).get (key k) = (d.get k).map f := by
  obtain ⟨es, nodup⟩ := d
  simp only [get, encode]
  clear nodup
  induction es with
  | nil => rfl
  | cons e rest ih =>
      obtain ⟨j, y⟩ := e
      simp only [List.map_cons, find, inj.eq_iff]
      split
      · rfl
      · exact ih

/-- A write before the encoding is the encoded write. -/
theorem encode_set [DecidableEq κ'] (inj : Function.Injective key) (d : Dict κ α) (k : κ) (x : α) :
    (d.set k x).encode key inj f = (d.encode key inj f).set (key k) (f x) := by
  apply ext
  obtain ⟨es, nodup⟩ := d
  simp only [encode, set]
  clear nodup
  induction es with
  | nil => rfl
  | cons e rest ih =>
      obtain ⟨j, y⟩ := e
      by_cases same : j = k
      · simp only [put, same, if_true, List.map_cons]
      · simp only [put, same, inj.eq_iff, if_false, List.map_cons, ih]

/-- **What was encoded reads back whole.** -/
theorem decode_encode {readKey : κ' → Option κ} {read : β → Option α}
    (inj : Function.Injective key) (d : Dict κ α) (keys : ∀ k, readKey (key k) = some k)
    (values : ∀ k x, d.get k = some x → read (f x) = some x) :
    (d.encode key inj f).decode readKey read = some d := by
  have entry : ∀ e ∈ d.entries,
      ((readKey (key e.1)).bind fun k => (read (f e.2)).map fun x => (k, x)) = some e := by
    intro e member
    rw [keys, values e.1 e.2 ((get_eq_some d e.1 e.2).mpr member)]
    rfl
  have whole : ((d.encode key inj f).entries.mapM fun e =>
      (readKey e.1).bind fun k => (read e.2).map fun x => (k, x)) = some d.entries := by
    simp only [encode]
    clear keys values
    generalize d.entries = es at entry
    induction es with
    | nil => rfl
    | cons e rest ih =>
        rw [List.map_cons, List.mapM_cons, entry e List.mem_cons_self,
          ih fun e' member => entry e' (List.mem_cons_of_mem _ member)]
        rfl
  rw [decode, whole, Option.bind_some, dif_pos d.nodup]

end Table

/-! ## Sums -/

section Sum

variable {M : Type*} [AddCommGroup M]

/-- The sum of `f` over the values. -/
def sum (d : Dict κ α) (f : α → M) : M := (d.values.map f).sum

@[simp] theorem sum_empty (f : α → M) : (empty : Dict κ α).sum f = 0 := rfl

variable [DecidableEq κ]

/-- **A write moves a sum by the new value less the one it replaced.** -/
theorem sum_set (d : Dict κ α) (f : α → M) (k : κ) (x : α) :
    (d.set k x).sum f = d.sum f + f x - (d.get k).elim 0 f := by
  obtain ⟨es, nodup⟩ := d
  simp only [sum, values, set, get]
  clear nodup
  induction es with
  | nil => simp [put, find]
  | cons e rest ih =>
      obtain ⟨j, y⟩ := e
      by_cases same : j = k
      · subst same
        simp only [put, if_true, find, List.map_cons, List.sum_cons, Option.elim_some]
        abel
      · simp only [put, same, if_false, find, List.map_cons, List.sum_cons, ih]
        abel

/-- **A batch that names no key twice moves a sum by what each pair replaces.** -/
theorem sum_setAll (d : Dict κ α) (f : α → M) {pairs : List (κ × α)}
    (nodup : (pairs.map Prod.fst).Nodup) :
    (d.setAll pairs).sum f =
      d.sum f + (pairs.map fun pair => f pair.2 - (d.get pair.1).elim 0 f).sum := by
  induction pairs generalizing d with
  | nil => simp
  | cons pair rest ih =>
      obtain ⟨absent, nodupRest⟩ := List.nodup_cons.mp nodup
      have untouched : (rest.map fun other =>
            f other.2 - ((d.set pair.1 pair.2).get other.1).elim 0 f) =
          rest.map fun other => f other.2 - (d.get other.1).elim 0 f := by
        apply List.map_congr_left
        intro other member
        have ne : pair.1 ≠ other.1 := by
          intro same
          exact absent (same ▸ List.mem_map_of_mem member)
        rw [get_set_ne _ _ ne]
      rw [setAll_cons, ih (d.set pair.1 pair.2) nodupRest, untouched, sum_set, List.map_cons,
        List.sum_cons]
      abel

/-- A sum read key by key, in any order. -/
theorem sum_keys (d : Dict κ α) (f : α → M) {ks : List κ} (nodup : ks.Nodup)
    (same : ∀ k, k ∈ ks ↔ k ∈ d.keys) : (ks.map fun k => (d.get k).elim 0 f).sum = d.sum f := by
  have perm : ks.Perm d.keys := (List.perm_ext_iff_of_nodup nodup d.keys_nodup).mpr same
  rw [(perm.map _).sum_eq]
  unfold sum keys values
  rw [List.map_map, List.map_map]
  congr 1
  apply List.map_congr_left
  intro entry member
  show (d.get entry.1).elim 0 f = f entry.2
  rw [(d.get_eq_some entry.1 entry.2).mpr member]
  rfl

/-- The same over more keys than there are: a key that is absent adds nothing. -/
theorem sum_keys_of_covers (d : Dict κ α) (f : α → M) {ks : List κ} (nodup : ks.Nodup)
    (covers : ∀ k ∈ d.keys, k ∈ ks) : (ks.map fun k => (d.get k).elim 0 f).sum = d.sum f := by
  have present : ∀ k, k ∈ ks.filter (fun k => decide (k ∈ d.keys)) ↔ k ∈ d.keys := by
    intro k
    rw [List.mem_filter, decide_eq_true_iff]
    exact ⟨And.right, fun there => ⟨covers k there, there⟩⟩
  rw [← sum_keys d f (nodup.filter _) present]
  clear covers present nodup
  induction ks with
  | nil => rfl
  | cons k rest ih =>
      rw [List.map_cons, List.sum_cons, ih]
      by_cases there : k ∈ d.keys
      · rw [List.filter_cons_of_pos (by simpa using there), List.map_cons, List.sum_cons]
      · rw [List.filter_cons_of_neg (by simpa using there), (d.get_eq_none k).mpr there]
        exact zero_add _

/-- A list summed key by key is summed whole, where the keys name all of it. -/
theorem sum_by_key {β : Type*} {name : β → κ} (f : β → M) {ks : List κ} (nodup : ks.Nodup)
    {xs : List β} (covers : ∀ x ∈ xs, name x ∈ ks) :
    (ks.map fun k => ((xs.filter fun x => name x = k).map f).sum).sum = (xs.map f).sum := by
  induction xs with
  | nil =>
      apply List.sum_eq_zero
      rintro _ member
      obtain ⟨k, _, rfl⟩ := List.mem_map.mp member
      rfl
  | cons x rest ih =>
      have split : ∀ k, (((x :: rest).filter fun y => name y = k).map f).sum =
          (if name x = k then f x else 0) + ((rest.filter fun y => name y = k).map f).sum := by
        intro k
        by_cases here : name x = k
        · rw [List.filter_cons_of_pos (by simpa using here), List.map_cons, List.sum_cons, if_pos here]
        · rw [List.filter_cons_of_neg (by simpa using here), if_neg here, zero_add]
      have own : (ks.map fun k => if name x = k then f x else 0).sum = f x := by
        have member := covers x List.mem_cons_self
        clear covers ih split
        induction ks with
        | nil => cases member
        | cons k more ih =>
            obtain ⟨absent, nodupMore⟩ := List.nodup_cons.mp nodup
            rw [List.map_cons, List.sum_cons]
            by_cases here : name x = k
            · have others : (more.map fun k => if name x = k then f x else 0).sum = 0 := by
                apply List.sum_eq_zero
                rintro _ listed
                obtain ⟨other, held, rfl⟩ := List.mem_map.mp listed
                exact if_neg fun same : name x = other => absent ((here.symm.trans same) ▸ held)
              rw [if_pos here, others, add_zero]
            · rw [if_neg here, zero_add]
              exact ih nodupMore ((List.mem_cons.mp member).resolve_left here)
      rw [List.map_congr_left fun k _ => split k, List.sum_map_add, own,
        ih fun y member => covers y (List.mem_cons_of_mem _ member), List.map_cons, List.sum_cons]

/-- **A sum is no higher where no entry is.** -/
theorem sum_le_sum [PartialOrder M] [IsOrderedAddMonoid M] {d e : Dict κ α} {f : α → M}
    (below : ∀ k, (d.get k).elim 0 f ≤ (e.get k).elim 0 f) : d.sum f ≤ e.sum f := by
  have nodup := List.nodup_dedup (d.keys ++ e.keys)
  have left : ∀ k ∈ d.keys, k ∈ (d.keys ++ e.keys).dedup := fun k there =>
    List.mem_dedup.mpr (List.mem_append_left _ there)
  have right : ∀ k ∈ e.keys, k ∈ (d.keys ++ e.keys).dedup := fun k there =>
    List.mem_dedup.mpr (List.mem_append_right _ there)
  rw [← sum_keys_of_covers d f nodup left, ← sum_keys_of_covers e f nodup right]
  exact List.sum_le_sum fun k _ => below k

/-- A batch of entries `f` does not see, over entries it does not see. -/
theorem sum_setAll_off {d : Dict κ α} {f : α → M} {pairs : List (κ × α)}
    (unseen : ∀ pair ∈ pairs, f pair.2 = 0)
    (replaced : ∀ pair ∈ pairs, ∀ x, d.get pair.1 = some x → f x = 0) :
    (d.setAll pairs).sum f = d.sum f := by
  induction pairs generalizing d with
  | nil => rfl
  | cons pair rest ih =>
      have old : (d.get pair.1).elim 0 f = 0 := by
        cases there : d.get pair.1 with
        | none => rfl
        | some x => exact replaced pair List.mem_cons_self x there
      rw [setAll_cons, ih (fun other member => unseen other (List.mem_cons_of_mem _ member)),
        sum_set, unseen pair List.mem_cons_self, old, add_zero, sub_zero]
      intro other member x there
      rw [get_set] at there
      split at there
      · cases there
        exact unseen pair List.mem_cons_self
      · exact replaced other (List.mem_cons_of_mem _ member) x there

end Sum

/-! ## The same contents in another order -/

section Same

variable [DecidableEq κ]

/-- Every key reads the same in both. -/
def Same (d e : Dict κ α) : Prop := ∀ k, d.get k = e.get k

theorem Same.refl (d : Dict κ α) : Same d d := fun _ => rfl

theorem Same.symm {d e : Dict κ α} (h : Same d e) : Same e d := fun k => (h k).symm

theorem Same.trans {d e g : Dict κ α} (h : Same d e) (h' : Same e g) : Same d g :=
  fun k => (h k).trans (h' k)

theorem Same.set {d e : Dict κ α} (h : Same d e) (k : κ) (x : α) :
    Same (d.set k x) (e.set k x) := by
  intro j
  rw [get_set, get_set, h j]

theorem Same.setAll {d e : Dict κ α} (h : Same d e) (pairs : List (κ × α)) :
    Same (d.setAll pairs) (e.setAll pairs) := by
  induction pairs generalizing d e with
  | nil => exact h
  | cons pair rest ih => exact ih (h.set pair.1 pair.2)

theorem Same.map {β : Type*} {d e : Dict κ α} (h : Same d e) (f : α → β) :
    Same (d.map f) (e.map f) := by
  intro k
  rw [get_map, get_map, h k]

theorem arrange_same (le : κ → κ → Prop) [DecidableRel le] (d : Dict κ α) :
    Same (d.arrange le) d :=
  get_arrange le d

/-- A batch write makes dictionaries that agree on every key it does not name the
same. -/
theorem setAll_same_off {d e : Dict κ α} {pairs : List (κ × α)}
    (off : ∀ k, k ∉ pairs.map Prod.fst → d.get k = e.get k) :
    Same (d.setAll pairs) (e.setAll pairs) := by
  intro k
  by_cases named : k ∈ pairs.map Prod.fst
  · exact get_setAll_of_mem named
  · rw [get_setAll_of_not_mem named, get_setAll_of_not_mem named, off k named]

/-- Dictionaries with the same contents hold the same entries up to order. -/
theorem Same.perm {d e : Dict κ α} (h : Same d e) : d.entries.Perm e.entries := by
  have nodupEntries : ∀ g : Dict κ α, g.entries.Nodup := fun g => g.nodup.of_map _
  rw [List.perm_ext_iff_of_nodup (nodupEntries d) (nodupEntries e)]
  rintro ⟨k, x⟩
  rw [← get_eq_some, ← get_eq_some, h k]

/-- What an entry's removal takes out of the values. -/
theorem values_erase_perm (d : Dict κ α) (k : κ) :
    d.values.Perm ((d.erase k).values ++ (d.get k).toList) := by
  cases there : d.get k with
  | none =>
      have same : Same d (d.erase k) := by
        intro k'
        rw [get_erase]
        split
        · rename_i here; rw [← here, there]
        · rfl
      rw [Option.toList_none, List.append_nil]
      exact same.perm.map Prod.snd
  | some x =>
      have same : Same d (d.refile k x) := by
        intro k'
        rw [get_refile]
        split
        · rename_i here; rw [← here, there]
        · rfl
      have perm : d.values.Perm (d.refile k x).values := same.perm.map Prod.snd
      rwa [values_refile] at perm

theorem Same.sum_eq {M : Type*} [AddCommGroup M] {d e : Dict κ α} (h : Same d e) (f : α → M) :
    d.sum f = e.sum f := by
  have perm : d.values.Perm e.values := h.perm.map _
  exact (perm.map f).sum_eq

end Same

end Dict

end Tickwright.Theory
