import ChunkScaledDotKkt.Harness.TestCase
import ChunkScaledDotKkt.Lib.BlockCopy
import Mathlib.Data.Rat.Defs

/-!
# Filling the inputs of a test case

`FillInputs` writes the three input arrays of a case.  Keys and betas are plain loops
over their index ranges; gates are written chunk by chunk, since the running sum of a
gate starts afresh with each chunk.

## Main results

* `gateWrites_count` — over accepted offsets the chunk loop writes each gate once.
-/

namespace ChunkScaledDotKkt.Harness

open MachineInt IntervalChain Buffer

/-- Single-precision arithmetic of the host compiler. -/
structure HostFloat (F : Type) where
  ofInt : ℤ → F
  lit : ℚ → F
  add : F → F → F
  sub : F → F → F
  mul : F → F → F
  lt : F → F → Bool
  exp : F → F
  bits : F → ℕ
  ofBits : ℕ → F

/-- The input arrays; `bfloat16` values are their bits. -/
structure HostInputs (F : Type) where
  k : ℤ → ℕ
  beta : ℤ → ℕ
  g : ℤ → F

section

variable {F : Type} (fl : HostFloat F) (tc : TestCase)

def floatToBFloat16 (value : F) : ℕ :=
  let bits := fl.bits value
  let lsb := (bits >>> 16) % 2
  ((bits + (0x7FFF + lsb)) % 4294967296) >>> 16

def bFloat16ToFloat (value : ℕ) : F := fl.ofBits (value <<< 16 % 4294967296)

/-! ## Keys and betas -/

def keyWrites : List (ℤ × ℕ) :=
  (List.range tc.t.toNat).flatMap fun token : ℕ =>
    (List.range tc.hg.toNat).flatMap fun kv : ℕ =>
      (List.range tc.k.toNat).map fun d : ℕ =>
        let raw : ℤ := ((token * 17 + kv * 13 + d * 7 + ((token * d : ℕ) : ℤ).tmod 19 : ℤ)).tmod 37
          - 18
        let value := fl.mul (fl.ofInt raw) (fl.lit (15625 / 1000000))
        ((token * tc.hg + kv) * tc.k + d, floatToBFloat16 fl value)

def betaWrites : List (ℤ × ℕ) :=
  (List.range tc.h.toNat).flatMap fun head : ℕ =>
    (List.range tc.t.toNat).map fun token : ℕ =>
      let raw : ℤ := (head * 11 + token * 5 : ℤ).tmod 23 - 11
      let value := fl.mul (fl.ofInt raw) (fl.lit (9375 / 100000))
      (head * tc.t + token, floatToBFloat16 fl value)

/-! ## Gates -/

def nearZeroValues : List ℚ :=
  [0, -1 / 1000000, -1 / 1000000, 1 / 1000000, 0, -2 / 1000000, 2 / 1000000, 0]

/-- The gate of row `i` of a chunk, after the running sum it leaves behind. -/
def gateValue (pattern : GatePattern) (head i : ℤ) (cumulative : F) : F × F :=
  match pattern with
  | .monotonicCumsum =>
      let increment := fl.sub (fl.lit (-125 / 10000))
        (fl.mul (fl.lit (1 / 1000)) (fl.ofInt ((head + i * 3).tmod 7)))
      let cumulative := fl.add cumulative increment
      (cumulative, cumulative)
  | .nonMonotonic =>
      let raw := (i32 (i * 7 + i32 head * 3)).tmod 13 - 6
      (cumulative, fl.mul (fl.ofInt raw) (fl.lit (75 / 1000)))
  | .rowZeroActive =>
      (cumulative,
        if i = 0 then fl.sub (fl.lit (-75 / 100)) (fl.mul (fl.lit (1 / 100)) (fl.ofInt head))
        else fl.sub (fl.lit (35 / 100))
          (fl.mul (fl.lit (45 / 1000)) (fl.ofInt ((i + head).tmod 9))))
  | .nearZeroDiff =>
      (cumulative, fl.lit (nearZeroValues.getD ((i32 (i + i32 head)).tmod 8).toNat 0))
  | .allEqual => (cumulative, fl.mul (fl.lit (-125 / 1000)) (fl.ofInt (head.tmod 3)))
  | .wideRange =>
      let raw := (i32 (i * 29 + i32 head * 17)).tmod 41 - 20
      (cumulative, fl.mul (fl.ofInt raw) (fl.lit (5 / 10)))

/-- The token loop of one chunk and head. -/
def gateRow (head begin : ℤ) : List ℕ → F → List (ℤ × F)
  | [], _ => []
  | i :: rows, cumulative =>
      let next := gateValue fl tc.gatePattern head i cumulative
      (head * tc.t + (begin + i), next.2) :: gateRow head begin rows next.1

/-- The writes of the chunk loop. -/
def gateWrites : List (ℤ × F) :=
  (intervals tc.chunkOffsets).flatMap fun chunk =>
    (List.range tc.h.toNat).flatMap fun head : ℕ =>
      gateRow fl tc head chunk.1 (List.range (chunk.2 - chunk.1).toNat) (fl.lit 0)

def fillInputs : HostInputs F where
  k := scatter (keyWrites fl tc) Prod.fst Prod.snd fun _ => 0
  beta := scatter (betaWrites fl tc) Prod.fst Prod.snd fun _ => 0
  g := scatter (gateWrites fl tc) Prod.fst Prod.snd fun _ => fl.lit 0

/-! ## Where the gates go -/

variable {tc}

/-- The indices of a row do not depend on the values. -/
theorem gateRow_indices (head begin : ℤ) (rows : List ℕ) (cumulative : F) :
    (gateRow fl tc head begin rows cumulative).map Prod.fst =
      rows.map fun i : ℕ => head * tc.t + (begin + i) := by
  induction rows generalizing cumulative with
  | nil => rfl
  | cons i rows ih => simp [gateRow, ih]

/-- A row is a contiguous run of indices. -/
theorem gateRow_range_indices (head begin : ℤ) (n : ℕ) (cumulative : F) :
    (gateRow fl tc head begin (List.range n) cumulative).map Prod.fst =
      BlockCopy.targets (BlockCopy.contiguous (head * tc.t + begin) 0 n) := by
  rw [gateRow_indices, BlockCopy.targets, BlockCopy.contiguous, List.map_map]
  apply List.map_congr_left
  intro i hi
  simp only [Function.comp_apply]
  omega

/-- A sum over a range of which only one term counts. -/
theorem sum_range_single {n i c : ℕ} {f : ℕ → ℕ} (hf : ∀ j < n, f j = if j = i then c else 0) :
    ((List.range n).map f).sum = if i < n then c else 0 := by
  induction n with
  | zero => simp
  | succ n ih =>
      rw [List.range_succ, List.map_append, List.sum_append,
        ih fun j hj => hf j (Nat.lt_succ_of_lt hj)]
      simp only [List.map_cons, List.map_nil, List.sum_cons, List.sum_nil, Nat.add_zero,
        hf n (Nat.lt_succ_self n)]
      by_cases hn : n = i
      · simp [hn]
      · have hiff : i < n ↔ i < n + 1 := by omega
        simp [hn, hiff]

/-- A sum of indicators counts. -/
theorem sum_indicator {α : Type} (p : α → Bool) (l : List α) :
    (l.map fun a => if p a then 1 else 0).sum = l.countP p := by
  induction l with
  | nil => rfl
  | cons a l ih => rw [List.map_cons, List.sum_cons, ih, List.countP_cons, Nat.add_comm]

/-- One chunk writes the gate of a head and token once if it holds the token, otherwise
not at all. -/
theorem chunkGates_count {p : ℤ × ℤ} (h0 : 0 ≤ p.1) (hle : p.1 ≤ p.2) (ht : p.2 ≤ tc.t)
    {head token : ℤ} (hhead : 0 ≤ head ∧ head < tc.h) (htoken : 0 ≤ token ∧ token < tc.t) :
    (((List.range tc.h.toNat).flatMap fun head : ℕ =>
        gateRow fl tc head p.1 (List.range (p.2 - p.1).toNat) (fl.lit 0)).map Prod.fst).count
      (head * tc.t + token) = if inside token p then 1 else 0 := by
  have hn : head.toNat < tc.h.toNat := by omega
  rw [List.map_flatMap, List.count_flatMap]
  refine (sum_range_single (i := head.toNat) ?_).trans (if_pos hn)
  intro other _
  rw [Function.comp_apply, gateRow_range_indices, BlockCopy.count_contiguous]
  have hother : other = head.toNat ↔ (other : ℤ) = head := by omega
  by_cases hsame : (other : ℤ) = head
  · rw [if_pos (hother.mpr hsame), hsame]
    simp only [inside_iff]
    have hlen : ((p.2 - p.1).toNat : ℤ) = p.2 - p.1 := by omega
    rw [hlen]
    congr 1
    rw [eq_iff_iff]
    constructor <;> intro h <;> omega
  · rw [if_neg fun h => hsame (hother.mp h), if_neg]
    -- the runs of two heads lie in different blocks of `t` indices
    rintro ⟨hlow, hhigh⟩
    rcases lt_or_gt_of_ne hsame with hlt | hgt
    · have hmul : ((other : ℤ) + 1) * tc.t ≤ head * tc.t :=
        Int.mul_le_mul_of_nonneg_right (by omega) (by omega)
      rw [Int.add_mul] at hmul
      omega
    · have hmul : (head + 1) * tc.t ≤ (other : ℤ) * tc.t :=
        Int.mul_le_mul_of_nonneg_right (by omega) (by omega)
      rw [Int.add_mul] at hmul
      omega

/-- **The chunk loop writes each gate exactly once.** -/
theorem gateWrites_count (h : Accepted tc.t tc.chunkOffsets) {head token : ℤ}
    (hhead : 0 ≤ head ∧ head < tc.h) (htoken : 0 ≤ token ∧ token < tc.t) :
    ((gateWrites fl tc).map Prod.fst).count (head * tc.t + token) = 1 := by
  rw [gateWrites, List.map_flatMap, List.count_flatMap]
  have hchunk : ∀ p ∈ intervals tc.chunkOffsets,
      (List.count (head * tc.t + token) ∘ fun chunk : ℤ × ℤ => List.map Prod.fst
        ((List.range tc.h.toNat).flatMap fun head : ℕ =>
          gateRow fl tc head chunk.1 (List.range (chunk.2 - chunk.1).toNat) (fl.lit 0))) p =
        if inside token p then 1 else 0 := by
    intro p hp
    obtain ⟨h0, hlt, hle⟩ := h.inRange hp
    exact chunkGates_count fl h0 (le_of_lt hlt) hle hhead htoken
  rw [List.map_congr_left hchunk, sum_indicator]
  obtain ⟨bounds, hbounds⟩ := List.head?_eq_some_iff.mp h.head
  have hchain := h.increasing
  have hlast := h.last
  rw [hbounds] at hchain hlast ⊢
  exact countP_intervals hchain hlast htoken.1 htoken.2

end

end ChunkScaledDotKkt.Harness
