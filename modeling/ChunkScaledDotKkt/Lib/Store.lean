import Mathlib.Data.List.Induction
import Mathlib.Data.List.ProdSigma
import Mathlib.Logic.Function.Basic
import Mathlib.Data.Nat.Notation
import Mathlib.Tactic.Common

/-!
# Buffers and scattered stores

A buffer is a function from element addresses to values.  An instruction that
computes all its results from the old buffers and then writes them is a `scatter`:
a list of indices, the address each index writes and the value it writes there.

## Main results

* `scatter_hit` — at a written address the buffer holds the value of its index, when
  the addresses of different indices differ or agree on the value.
* `scatter_miss` — any other address is unchanged.
-/

namespace Buffer

variable {ι A R : Type}

/-- Index pairs below the two bounds, row by row. -/
def grid (n k : ℕ) : List (ℕ × ℕ) := List.range n ×ˢ List.range k

@[simp] theorem mem_grid {n k i j : ℕ} : (i, j) ∈ grid n k ↔ i < n ∧ j < k := by
  simp [grid]

/-- Index triples below the three bounds. -/
def grid3 (n k l : ℕ) : List (ℕ × ℕ × ℕ) := List.range n ×ˢ grid k l

@[simp] theorem mem_grid3 {n k l h i j : ℕ} :
    (h, i, j) ∈ grid3 n k l ↔ h < n ∧ i < k ∧ j < l := by
  simp [grid3]

theorem grid_succ (n k : ℕ) : grid (n + 1) k = grid n k ++ (List.range k).map fun j => (n, j) := by
  simp [grid, SProd.sprod, List.product, List.range_succ, List.flatMap_append]

/-- A grid runs through the flat indices in order. -/
theorem grid_flat (n k : ℕ) : (grid n k).map (fun p => p.1 * k + p.2) = List.range (n * k) := by
  induction n with
  | zero => simp [grid, SProd.sprod, List.product]
  | succ n ih =>
      rw [grid_succ, List.map_append, ih, Nat.add_mul, Nat.one_mul, List.range_add, List.map_map]
      rfl

theorem grid3_flat (n k l : ℕ) :
    (grid3 n k l).map (fun p => (p.1 * k + p.2.1) * l + p.2.2) = List.range (n * k * l) := by
  let row := fun q : ℕ => (List.range l).map fun j => q * l + j
  calc (grid3 n k l).map (fun p => (p.1 * k + p.2.1) * l + p.2.2)
      = (grid n k).flatMap fun p => row (p.1 * k + p.2) := by
        simp only [grid3, grid, row, SProd.sprod, List.product, List.flatMap_assoc,
          List.flatMap_map, List.map_flatMap, List.map_map, Function.comp_def]
    _ = (List.range (n * k)).flatMap row := by
        rw [← grid_flat, List.flatMap_map]
    _ = List.range (n * k * l) := by
        rw [← grid_flat (n * k) l]
        simp only [grid, row, SProd.sprod, List.product, List.map_flatMap, List.map_map,
          Function.comp_def]

variable [DecidableEq A]

/-- Write the value of every index of the list to its address, in order. -/
def scatter (L : List ι) (dst : ι → A) (val : ι → R) (buf : A → R) : A → R :=
  L.foldl (fun b i => Function.update b (dst i) (val i)) buf

theorem scatter_miss {L : List ι} {dst : ι → A} {val : ι → R} {buf : A → R} {a : A}
    (h : ∀ i ∈ L, dst i ≠ a) : scatter L dst val buf a = buf a := by
  induction L generalizing buf with
  | nil => rfl
  | cons i L ih =>
      have hi : dst i ≠ a := h i (by simp)
      rw [scatter, List.foldl_cons]
      change scatter L dst val _ a = _
      rw [ih fun j hj => h j (by simp [hj]), Function.update_of_ne (Ne.symm hi)]

/-- A written address holds the value of an index that writes it, if all indices that
write it agree. -/
theorem scatter_hit {L : List ι} {dst : ι → A} {val : ι → R} {buf : A → R} {i : ι} (hi : i ∈ L)
    (h : ∀ j ∈ L, dst j = dst i → val j = val i) : scatter L dst val buf (dst i) = val i := by
  induction L using List.reverseRecOn with
  | nil => cases hi
  | append_singleton L j ih =>
      rw [scatter, List.foldl_append, List.foldl_cons, List.foldl_nil]
      change Function.update (scatter L dst val buf) (dst j) (val j) (dst i) = val i
      by_cases hij : dst j = dst i
      · rw [hij, Function.update_self]
        exact h j (by simp) hij
      · rw [Function.update_of_ne (Ne.symm hij)]
        have hmem : i ∈ L := by
          rcases List.mem_append.mp hi with hL | hj
          · exact hL
          · rw [List.mem_singleton] at hj
            rw [hj] at hij
            exact absurd rfl hij
        exact ih hmem fun k hk => h k (by simp [hk])

/-- The rule for addresses that differ between indices. -/
theorem scatter_hit_of_injOn {L : List ι} {dst : ι → A} {val : ι → R} {buf : A → R} {i : ι}
    {a : A} (hi : i ∈ L) (ha : dst i = a) (h : ∀ j ∈ L, dst j = dst i → j = i) :
    scatter L dst val buf a = val i := by
  subst ha
  exact scatter_hit hi fun j hj heq => by rw [h j hj heq]

/-- A written address holds what its writers agree on. -/
theorem scatter_of_forall {L : List ι} {dst : ι → A} {val : ι → R} {buf : A → R} {a : A}
    {P : A → R → Prop} (h : ∀ i ∈ L, P (dst i) (val i)) (ha : ∃ i ∈ L, dst i = a) :
    P a (scatter L dst val buf a) := by
  induction L using List.reverseRecOn with
  | nil => simp at ha
  | append_singleton L j ih =>
      rw [scatter, List.foldl_append, List.foldl_cons, List.foldl_nil]
      change P a (Function.update (scatter L dst val buf) (dst j) (val j) a)
      by_cases hj : dst j = a
      · rw [← hj, Function.update_self]
        exact h j (by simp)
      · rw [Function.update_of_ne (Ne.symm hj)]
        refine ih (fun i hi => h i (by simp [hi])) ?_
        obtain ⟨i, hi, rfl⟩ := ha
        rw [List.mem_append, List.mem_singleton] at hi
        exact ⟨i, hi.resolve_right fun heq => hj (heq ▸ rfl), rfl⟩

/-- What an address holds depends on what it held, not on the rest of the buffer. -/
theorem scatter_congr_at {L : List ι} {dst : ι → A} {val : ι → R} {buf buf' : A → R} {a : A}
    (h : buf a = buf' a) : scatter L dst val buf a = scatter L dst val buf' a := by
  induction L generalizing buf buf' with
  | nil => exact h
  | cons i L ih =>
      rw [scatter, scatter, List.foldl_cons, List.foldl_cons]
      refine ih ?_
      by_cases hi : dst i = a
      · rw [← hi, Function.update_self, Function.update_self]
      · rw [Function.update_of_ne (Ne.symm hi), Function.update_of_ne (Ne.symm hi), h]

/-- Scatters of equal values write the same. -/
theorem scatter_congr {L : List ι} {dst : ι → A} {val val' : ι → R} {buf : A → R}
    (h : ∀ i ∈ L, val i = val' i) : scatter L dst val buf = scatter L dst val' buf := by
  induction L generalizing buf with
  | nil => rfl
  | cons i L ih =>
      rw [scatter, List.foldl_cons, h i (by simp)]
      exact ih fun j hj => h j (by simp [hj])

/-! ## Sub-tensors -/

/-- The elements of a buffer from an offset on. -/
def slice (off : ℕ) (buf : ℕ → R) : ℕ → R := fun i => buf (off + i)

/-- Apply an instruction to a buffer from an offset on. -/
def into (off : ℕ) (f : (ℕ → R) → ℕ → R) (buf : ℕ → R) : ℕ → R :=
  fun a => if a < off then buf a else f (slice off buf) (a - off)

theorem into_lt {off a : ℕ} {f : (ℕ → R) → ℕ → R} {buf : ℕ → R} (h : a < off) :
    into off f buf a = buf a := if_pos h

@[simp] theorem into_add {off i : ℕ} {f : (ℕ → R) → ℕ → R} {buf : ℕ → R} :
    into off f buf (off + i) = f (slice off buf) i := by
  rw [into, if_neg (by omega), Nat.add_sub_cancel_left]

theorem into_of_le {off a : ℕ} {f : (ℕ → R) → ℕ → R} {buf : ℕ → R} (h : off ≤ a) :
    into off f buf a = f (slice off buf) (a - off) := if_neg (Nat.not_lt.mpr h)

end Buffer
