import Mathlib.Algebra.BigOperators.Group.List.Basic
import Mathlib.Algebra.GroupWithZero.Nat
import Mathlib.Data.List.Dedup
import Mathlib.Data.List.Induction
import Mathlib.Tactic.Common

/-!
# Grouping the entries of a list

Entries are appended to the group of their key, and groups stand in the order in which
their keys first occur.  Nothing is lost and nothing repeated: there is one group for each
key that occurs, and it holds the entries with the key in their order.

## Main results

* `group_eq_filter`, `eq_filter_of_mem` — a group is a filter of the list.
* `nodup_keys`, `mem_keys` — one group for each key that occurs.
* `sum_fibers` — sums over the fibers of a key function.
-/

namespace GroupBy

variable {α κ : Type} [DecidableEq κ]

/-- Append an entry to the group of its key. -/
def add (k : κ) (a : α) : List (κ × List α) → List (κ × List α)
  | [] => [(k, [a])]
  | (k', group) :: groups =>
      if k' = k then (k', group ++ [a]) :: groups else (k', group) :: add k a groups

def groupBy (key : α → κ) (l : List α) : List (κ × List α) :=
  l.foldl (fun groups a => add (key a) a groups) []

/-- The group of a key, empty if the key does not occur. -/
def group (groups : List (κ × List α)) (k : κ) : List α := (groups.lookup k).getD []

variable {key : α → κ}

theorem groupBy_append_singleton (l : List α) (a : α) :
    groupBy key (l ++ [a]) = add (key a) a (groupBy key l) := by
  simp [groupBy]

theorem group_cons (g : κ × List α) (groups : List (κ × List α)) (k : κ) :
    group (g :: groups) k = if k = g.1 then g.2 else group groups k := by
  cases g with
  | mk k' entries =>
      by_cases h : k = k'
      · simp [group, h]
      · have hbeq : (k == k') = false := beq_false_of_ne h
        simp [group, List.lookup_cons, h, hbeq]

theorem group_add (k k' : κ) (a : α) (groups : List (κ × List α)) :
    group (add k a groups) k' = group groups k' ++ if k' = k then [a] else [] := by
  induction groups with
  | nil =>
      rw [add, group_cons]
      simp [group]
  | cons g groups ih =>
      rw [add]
      by_cases hg : g.1 = k
      · rw [if_pos hg, group_cons, group_cons]
        by_cases hk : k' = g.1
        · simp [hk, hg]
        · simp [hk, ← hg]
      · rw [if_neg hg, group_cons, group_cons, ih]
        by_cases hk : k' = g.1
        · simp [hk, hg]
        · simp [hk]

/-- **The group of a key** holds its entries in order. -/
theorem group_eq_filter (key : α → κ) (l : List α) (k : κ) :
    group (groupBy key l) k = l.filter fun a => key a = k := by
  induction l using List.reverseRecOn with
  | nil => rfl
  | append_singleton l a ih =>
      rw [groupBy_append_singleton, group_add, ih, List.filter_append]
      by_cases h : k = key a
      · simp [h]
      · simp [h, Ne.symm h]

/-! ## Keys of the groups -/

theorem keys_add (k : κ) (a : α) (groups : List (κ × List α)) :
    (add k a groups).map Prod.fst =
      if k ∈ groups.map Prod.fst then groups.map Prod.fst else groups.map Prod.fst ++ [k] := by
  induction groups with
  | nil => simp [add]
  | cons g groups ih =>
      rw [add]
      by_cases hg : g.1 = k
      · simp [hg]
      · have hne : ¬ k = g.1 := fun h => hg h.symm
        rw [if_neg hg, List.map_cons, ih]
        split_ifs with hmem hmem' hmem'
        · rfl
        · exact absurd (List.mem_cons_of_mem g.1 hmem) hmem'
        · exact absurd ((List.mem_cons.mp hmem').resolve_left hne) hmem
        · rfl

/-- **The groups have different keys.** -/
theorem nodup_keys (key : α → κ) (l : List α) : ((groupBy key l).map Prod.fst).Nodup := by
  induction l using List.reverseRecOn with
  | nil => simp [groupBy]
  | append_singleton l a ih =>
      rw [groupBy_append_singleton, keys_add]
      split_ifs with hmem
      · exact ih
      · rw [List.nodup_append]
        refine ⟨ih, List.nodup_singleton _, ?_⟩
        intro k hk k' hk' heq
        rw [List.mem_singleton] at hk'
        rw [heq, hk'] at hk
        exact hmem hk

/-- The keys of the groups are those of the entries. -/
theorem mem_keys {l : List α} {k : κ} :
    k ∈ (groupBy key l).map Prod.fst ↔ ∃ a ∈ l, key a = k := by
  induction l using List.reverseRecOn with
  | nil => simp [groupBy]
  | append_singleton l a ih =>
      have hsplit : (∃ b ∈ l ++ [a], key b = k) ↔ (∃ b ∈ l, key b = k) ∨ key a = k := by
        simp [or_and_right, exists_or]
      rw [groupBy_append_singleton, keys_add, hsplit, ← ih]
      split_ifs with hmem
      · exact ⟨Or.inl, fun h => h.elim id fun heq => heq ▸ hmem⟩
      · rw [List.mem_append, List.mem_singleton, eq_comm (a := k)]

theorem group_of_mem {groups : List (κ × List α)} (hnodup : (groups.map Prod.fst).Nodup)
    {g : κ × List α} (hg : g ∈ groups) : group groups g.1 = g.2 := by
  induction groups with
  | nil => cases hg
  | cons first groups ih =>
      rw [List.map_cons, List.nodup_cons] at hnodup
      rw [group_cons]
      cases List.mem_cons.mp hg with
      | inl heq => rw [heq, if_pos rfl]
      | inr hmem =>
          have hne : g.1 ≠ first.1 := by
            intro heq
            rw [← heq] at hnodup
            exact hnodup.1 (List.mem_map_of_mem hmem)
          rw [if_neg hne, ih hnodup.2 hmem]

/-- **A group is a filter** of the list by its key. -/
theorem eq_filter_of_mem {l : List α} {g : κ × List α} (hg : g ∈ groupBy key l) :
    g.2 = l.filter fun a => key a = g.1 := by
  rw [← group_of_mem (nodup_keys key l) hg, group_eq_filter]

/-! ## Sums over fibers -/

theorem sum_indicator {M : Type} [AddCommMonoid M] {k : κ} (c : M) {keys : List κ}
    (hnodup : keys.Nodup) (hk : k ∈ keys) :
    (keys.map fun k' => if k = k' then c else 0).sum = c := by
  induction keys with
  | nil => cases hk
  | cons k' keys ih =>
      rw [List.nodup_cons] at hnodup
      rw [List.map_cons, List.sum_cons]
      by_cases heq : k = k'
      · have hzero : ∀ b ∈ keys, (if k = b then c else 0) = 0 := by
          intro b hb
          rw [if_neg]
          intro hkb
          rw [← heq, hkb] at hnodup
          exact hnodup.1 hb
        rw [if_pos heq, List.map_congr_left hzero]
        simp
      · have hmem : k ∈ keys := (List.mem_cons.mp hk).resolve_left heq
        rw [if_neg heq, zero_add, ih hnodup.2 hmem]

/-- **Sums over the fibers** of a key function, for keys listed once each. -/
theorem sum_fibers {M : Type} [AddCommMonoid M] (key : α → κ) (f : α → M) {keys : List κ}
    (hnodup : keys.Nodup) {l : List α} (hkeys : ∀ a ∈ l, key a ∈ keys) :
    (keys.map fun k => ((l.filter fun a => key a = k).map f).sum).sum = (l.map f).sum := by
  induction l with
  | nil => simp
  | cons a l ih =>
      have hsplit : ∀ k, (((a :: l).filter fun a => key a = k).map f).sum =
          (if key a = k then f a else 0) + ((l.filter fun a => key a = k).map f).sum := by
        intro k
        by_cases hk : key a = k <;> simp [hk]
      simp only [hsplit]
      rw [List.sum_map_add, sum_indicator (f a) hnodup (hkeys a (by simp)),
        ih fun b hb => hkeys b (List.mem_cons_of_mem a hb), List.map_cons, List.sum_cons]

end GroupBy
