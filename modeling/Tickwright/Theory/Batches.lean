/-
# Theory.Batches -- a list split by key, and each part sent in batches

`batches limit xs` cuts a list into consecutive pieces of at most `limit`, and
`grouped key xs` files its items under their keys, both in the order of the list.
`batched` does the one after the other.

* `flatten_batches`: the pieces joined are the list;
* `batched_under`: the batches of a key joined are the items of that key, in order;
* `mem_batched`: no batch is empty, none exceeds the limit, and each is of one key.
-/
import Tickwright.Theory.Gather

namespace Tickwright.Theory

set_option autoImplicit false

universe u v

variable {α : Type u} {κ : Type v}

/-! ## Pieces of a list -/

/-- Consecutive pieces of at most `limit`. -/
def batches (limit : ℕ) (xs : List α) : List (List α) :=
  (List.range ((xs.length + limit - 1) / limit)).map fun i => (xs.drop (i * limit)).take limit

theorem batches_nil (limit : ℕ) : batches limit ([] : List α) = [] := by
  rcases limit.eq_zero_or_pos with zero | positive
  · rw [batches, zero, Nat.div_zero]
    rfl
  · have none_ : (([] : List α).length + limit - 1) / limit = 0 :=
      Nat.div_eq_of_lt (by simp only [List.length_nil]; omega)
    rw [batches, none_]
    rfl

/-- The first piece, and the pieces of what is behind it. -/
theorem batches_step {limit : ℕ} (positive : 0 < limit) {xs : List α} (some_ : xs ≠ []) :
    batches limit xs = xs.take limit :: batches limit (xs.drop limit) := by
  have length : 0 < xs.length := List.length_pos_iff.mpr some_
  have count : (xs.length + limit - 1) / limit =
      ((xs.drop limit).length + limit - 1) / limit + 1 := by
    rw [List.length_drop, ← Nat.add_div_right _ positive]
    rcases Nat.lt_or_ge limit xs.length with more | last
    · congr 1
      omega
    · have one : ∀ n, limit ≤ n → n < 2 * limit → n / limit = 1 := fun n low high =>
        Nat.div_eq_of_lt_le (by omega) (by omega)
      rw [Nat.sub_eq_zero_of_le last, one _ (by omega) (by omega), one _ (by omega) (by omega)]
  rw [batches, count, List.range_succ_eq_map, List.map_cons, Nat.zero_mul, List.drop_zero,
    List.map_map, batches]
  congr 1
  refine List.map_congr_left fun i _ => ?_
  simp only [Function.comp_apply, List.drop_drop]
  congr 2
  rw [Nat.succ_mul, Nat.add_comm]

/-- What holds of nothing, and of a list when it holds behind its first piece. -/
theorem batches_induct {limit : ℕ} (positive : 0 < limit) {holds : List α → Prop}
    (nil : holds []) (step : ∀ xs, xs ≠ [] → holds (xs.drop limit) → holds xs)
    (xs : List α) : holds xs := by
  induction size : xs.length using Nat.strong_induction_on generalizing xs with
  | _ n ih =>
      rcases eq_or_ne xs [] with rfl | some_
      · exact nil
      · have length : 0 < xs.length := List.length_pos_iff.mpr some_
        refine step xs some_ (ih _ ?_ (xs.drop limit) rfl)
        rw [List.length_drop]
        omega

/-- **The pieces joined are the list.** -/
theorem flatten_batches {limit : ℕ} (positive : 0 < limit) (xs : List α) :
    (batches limit xs).flatten = xs := by
  induction xs using batches_induct positive with
  | nil => rw [batches_nil]; rfl
  | step xs some_ ih =>
      rw [batches_step positive some_, List.flatten_cons, ih, List.take_append_drop]

/-- No piece is empty, and none exceeds the limit. -/
theorem mem_batches {limit : ℕ} (positive : 0 < limit) {xs batch : List α}
    (member : batch ∈ batches limit xs) : batch ≠ [] ∧ batch.length ≤ limit := by
  induction xs using batches_induct positive with
  | nil =>
      rw [batches_nil] at member
      cases member
  | step xs some_ ih =>
      rw [batches_step positive some_] at member
      rcases List.mem_cons.mp member with rfl | later
      · refine ⟨fun empty => ?_, List.length_take_le _ _⟩
        rcases List.take_eq_nil_iff.mp empty with zero | none_
        · omega
        · exact some_ none_
      · exact ih later

/-! ## Items under their keys -/

section Keys

variable [DecidableEq κ]

/-- The items under their keys, each key where its first item stands. -/
def grouped (key : α → κ) (xs : List α) : Dict κ (List α) :=
  Dict.gather key [] (fun group x => group ++ [x]) xs

theorem foldl_concat (xs start : List α) :
    xs.foldl (fun group x => group ++ [x]) start = start ++ xs := by
  induction xs generalizing start with
  | nil => simp
  | cons x rest ih => rw [List.foldl_cons, ih]; simp

theorem getD_grouped (key : α → κ) (xs : List α) (k : κ) :
    ((grouped key xs).get k).getD [] = xs.filter fun x => key x = k := by
  rw [grouped, Dict.get_gather]
  split
  · rename_i none_
    rw [none_]
    rfl
  · rw [foldl_concat]
    rfl

/-- The entries of one key are its own. -/
theorem flatMap_entries {β : Type*} (d : Dict κ α) (f : α → List β) (k : κ) :
    (d.entries.filter fun entry => entry.1 = k).flatMap (fun entry => f entry.2) =
      ((d.get k).map f).getD [] := by
  obtain ⟨entries, nodup⟩ := d
  simp only [Dict.get]
  induction entries with
  | nil => rfl
  | cons entry rest ih =>
      obtain ⟨absent, nodupRest⟩ := List.nodup_cons.mp nodup
      by_cases here : entry.1 = k
      · subst here
        have none_ : rest.filter (fun other => other.1 = entry.1) = [] := by
          rw [List.filter_eq_nil_iff]
          intro other member same
          exact absent (List.mem_map.mpr ⟨other, member, by simpa using same⟩)
        rw [List.filter_cons_of_pos (by simp), none_]
        simp [Dict.find]
      · rw [List.filter_cons_of_neg (by simpa using here), ih nodupRest]
        simp [Dict.find, here]

/-- Every batch of every key, the keys as they first came. -/
def batched (key : α → κ) (limit : ℕ) (xs : List α) : List (κ × List α) :=
  (grouped key xs).entries.flatMap fun entry => (batches limit entry.2).map fun batch =>
    (entry.1, batch)

/-- **The batches of a key joined are the items of that key, in order.** -/
theorem batched_under (key : α → κ) {limit : ℕ} (positive : 0 < limit) (xs : List α) (k : κ) :
    ((batched key limit xs).filter fun batch => batch.1 = k).flatMap Prod.snd =
      xs.filter fun x => key x = k := by
  have joined : ∀ entries : List (κ × List α),
      ((entries.flatMap fun entry => (batches limit entry.2).map fun batch =>
        (entry.1, batch)).filter fun batch => batch.1 = k).flatMap Prod.snd =
      (entries.filter fun entry => entry.1 = k).flatMap fun entry => entry.2 := by
    intro entries
    induction entries with
    | nil => rfl
    | cons entry rest ih =>
        rw [List.flatMap_cons, List.filter_append, List.flatMap_append, ih]
        by_cases here : entry.1 = k
        · rw [List.filter_cons_of_pos (by simpa using here), List.flatMap_cons,
            List.filter_eq_self.mpr (by simp [here]), List.flatMap_map]
          congr 1
          simpa using flatten_batches positive entry.2
        · rw [List.filter_cons_of_neg (by simpa using here),
            List.filter_eq_nil_iff.mpr (by simp [here])]
          rfl
  have one := flatMap_entries (grouped key xs) id k
  rw [Option.map_id] at one
  rw [batched, joined, ← getD_grouped key xs k]
  exact one

/-- No batch is empty, none exceeds the limit, and each is of one key. -/
theorem mem_batched {key : α → κ} {limit : ℕ} (positive : 0 < limit) {xs : List α}
    {batch : κ × List α} (member : batch ∈ batched key limit xs) :
    batch.2 ≠ [] ∧ batch.2.length ≤ limit ∧ ∀ x ∈ batch.2, key x = batch.1 := by
  obtain ⟨entry, filed, cut⟩ := List.mem_flatMap.mp member
  obtain ⟨piece, piece_, rfl⟩ := List.mem_map.mp cut
  refine ⟨(mem_batches positive piece_).1, (mem_batches positive piece_).2, fun x inside => ?_⟩
  have held : (grouped key xs).get entry.1 = some entry.2 := (Dict.get_eq_some _ _ _).mpr filed
  have mine := getD_grouped key xs entry.1
  rw [held, Option.getD_some] at mine
  have there : x ∈ entry.2 := by
    rw [← flatten_batches positive entry.2]
    exact List.mem_flatten.mpr ⟨piece, piece_, inside⟩
  rw [mine] at there
  simpa using (List.mem_filter.mp there).2

end Keys

end Tickwright.Theory
