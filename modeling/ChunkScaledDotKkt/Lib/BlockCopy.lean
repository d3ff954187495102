import ChunkScaledDotKkt.Lib.Store
import Mathlib.Data.Int.Notation
import Mathlib.Data.List.Nodup

/-!
# Block copies between two memories

A copy command stands for the list of element moves it makes.  `contiguous` moves one
run of elements, `strided` several runs of one length with a gap after each on both
sides.  A copy acts on the destination as a scatter of the source's values.

## Main results

* `strided_two` — a descriptor of two blocks is two contiguous copies.
* `count_contiguous` — a contiguous copy writes each address of its interval once and
  no other.
* `store_contiguous` — what a contiguous copy leaves in the destination.
-/

namespace BlockCopy

open Buffer

/-- One element, from a local address to a global one. -/
structure Move where
  src : ℕ
  dst : ℤ
  deriving Repr, DecidableEq

/-- `n` consecutive elements. -/
def contiguous (dst : ℤ) (src n : ℕ) : List Move :=
  (List.range n).map fun i => ⟨src + i, dst + i⟩

/-- `count` blocks of `len` elements; the gaps stand between the end of a block and the
start of the next. -/
def strided (dst : ℤ) (src count len srcGap dstGap : ℕ) : List Move :=
  (List.range count).flatMap fun block =>
    contiguous (dst + (block * (len + dstGap) : ℕ)) (src + block * (len + srcGap)) len

theorem mem_contiguous {dst : ℤ} {src n : ℕ} {move : Move} :
    move ∈ contiguous dst src n ↔ ∃ i < n, move = ⟨src + i, dst + i⟩ := by
  simp [contiguous, eq_comm]

theorem strided_two (dst : ℤ) (src len srcGap dstGap : ℕ) :
    strided dst src 2 len srcGap dstGap =
      contiguous dst src len ++
        contiguous (dst + (len + dstGap : ℕ)) (src + (len + srcGap)) len := by
  simp [strided, List.range_succ]

/-! ## Addresses written -/

/-- The addresses a copy writes, in order. -/
def targets (moves : List Move) : List ℤ := moves.map Move.dst

@[simp] theorem targets_nil : targets [] = [] := rfl

@[simp] theorem targets_append (as bs : List Move) :
    targets (as ++ bs) = targets as ++ targets bs := List.map_append

theorem nodup_contiguous (dst : ℤ) (src n : ℕ) : (targets (contiguous dst src n)).Nodup := by
  rw [targets, contiguous, List.map_map]
  apply List.Nodup.map _ List.nodup_range
  intro i j h
  simp only [Function.comp_apply] at h
  omega

theorem mem_targets_contiguous {dst a : ℤ} {src n : ℕ} :
    a ∈ targets (contiguous dst src n) ↔ dst ≤ a ∧ a < dst + n := by
  simp only [targets, contiguous, List.map_map, List.mem_map, List.mem_range,
    Function.comp_apply]
  constructor
  · intro ⟨i, hi, ha⟩
    omega
  · intro h
    exact ⟨(a - dst).toNat, by omega, by omega⟩

/-- A contiguous copy writes each address of its interval once. -/
theorem count_contiguous (dst a : ℤ) (src n : ℕ) :
    (targets (contiguous dst src n)).count a = if dst ≤ a ∧ a < dst + n then 1 else 0 := by
  by_cases h : dst ≤ a ∧ a < dst + n
  · rw [if_pos h]
    exact List.count_eq_one_of_mem (nodup_contiguous dst src n) (mem_targets_contiguous.mpr h)
  · rw [if_neg h]
    exact List.count_eq_zero_of_not_mem fun hmem => h (mem_targets_contiguous.mp hmem)

/-! ## Effect on the destination -/

variable {R : Type}

/-- The destination after the moves, in order. -/
def store (moves : List Move) (ub : ℕ → R) (gm : ℤ → R) : ℤ → R :=
  scatter moves Move.dst (fun move => ub move.src) gm

theorem store_append (as bs : List Move) (ub : ℕ → R) (gm : ℤ → R) :
    store (as ++ bs) ub gm = store bs ub (store as ub gm) := List.foldl_append

theorem store_miss {moves : List Move} {ub : ℕ → R} {gm : ℤ → R} {a : ℤ}
    (h : a ∉ targets moves) : store moves ub gm a = gm a :=
  scatter_miss fun move hmove heq => h (List.mem_map.mpr ⟨move, hmove, heq⟩)

/-- A destination holds what all moves to it agree on. -/
theorem store_of_forall {moves : List Move} {ub : ℕ → R} {gm : ℤ → R} {a : ℤ} {P : ℤ → R → Prop}
    (h : ∀ move ∈ moves, P move.dst (ub move.src)) (ha : a ∈ targets moves) :
    P a (store moves ub gm a) :=
  scatter_of_forall h (List.mem_map.mp ha)

/-- A contiguous copy leaves the source's elements in its interval and nothing else
changed. -/
theorem store_contiguous (dst a : ℤ) (src n : ℕ) (ub : ℕ → R) (gm : ℤ → R) :
    store (contiguous dst src n) ub gm a =
      if dst ≤ a ∧ a < dst + n then ub (src + (a - dst).toNat) else gm a := by
  by_cases h : dst ≤ a ∧ a < dst + n
  · rw [if_pos h]
    have hmem : (⟨src + (a - dst).toNat, a⟩ : Move) ∈ contiguous dst src n :=
      mem_contiguous.mpr ⟨(a - dst).toNat, by omega, by rw [Move.mk.injEq]; omega⟩
    rw [store]
    refine scatter_hit_of_injOn hmem rfl fun move hmove heq => ?_
    obtain ⟨i, -, rfl⟩ := mem_contiguous.mp hmove
    simp only [Move.mk.injEq] at heq ⊢
    omega
  · rw [if_neg h]
    exact store_miss fun hmem => h (mem_targets_contiguous.mp hmem)

end BlockCopy
