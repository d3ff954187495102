import ChunkScaledDotKkt.Lib.Store
import Mathlib.Algebra.Ring.Defs
import Mathlib.Order.Lattice

/-!
# Vector-unit and DMA instructions on 32-bit elements

The documented effect of the vector and DMA instructions on element addresses.  A
32-byte block has 8 elements of 4 bytes or 16 of 2 bytes; a repeat of a strided
instruction covers `mask` elements, with a block stride inside the repeat and a
repeat stride between repeats.

Compare writes one bit per element, 64 consecutive bits per repeat.  Strided and
padded copies name their strides in the units of the descriptor fields.
-/

namespace VectorUnit

open Buffer

variable {F : Type}

/-! ## Strided operands -/

structure BinaryRepeatParams where
  dstBlkStride : ℕ
  src0BlkStride : ℕ
  src1BlkStride : ℕ
  dstRepStride : ℕ
  src0RepStride : ℕ
  src1RepStride : ℕ
  deriving Repr, DecidableEq

/-- Element `e` of repeat `rep` of an operand with the given strides. -/
def strided (blkStride repStride rep e : ℕ) : ℕ :=
  rep * (repStride * 8) + e / 8 * (blkStride * 8) + e % 8

/-! ## Counted instructions -/

def duplicate (val : F) (n : ℕ) (dst : ℕ → F) : ℕ → F :=
  scatter (List.range n) id (fun _ => val) dst

def muls [Mul F] (src : ℕ → F) (scalar : F) (n : ℕ) (dst : ℕ → F) : ℕ → F :=
  scatter (List.range n) id (fun i => src i * scalar) dst

/-- `Exp` and `Cast`: one value per element. -/
def unary (f : F → F) (src : ℕ → F) (n : ℕ) (dst : ℕ → F) : ℕ → F :=
  scatter (List.range n) id (fun i => f (src i)) dst

def mul [Mul F] (src0 src1 : ℕ → F) (n : ℕ) (dst : ℕ → F) : ℕ → F :=
  scatter (List.range n) id (fun i => src0 i * src1 i) dst

/-- Tensor-scalar select by a bit mask. -/
def select (mask : ℕ → Bool) (src : ℕ → F) (scalar : F) (n : ℕ) (dst : ℕ → F) : ℕ → F :=
  scatter (List.range n) id (fun i => if mask i then src i else scalar) dst

/-! ## Repeated instructions -/

/-- Broadcast each of 8 elements per repeat to a 32-byte block. -/
def brcb (src : ℕ → F) (repeats dstBlkStride dstRepStride : ℕ) (dst : ℕ → F) : ℕ → F :=
  scatter (grid3 repeats 8 8)
    (fun (rep, b, e) => (rep * dstRepStride + b * dstBlkStride) * 8 + e)
    (fun (rep, b, _) => src (rep * 8 + b)) dst

/-- `CMPMODE::LT`; the destination is bit addressed. -/
def compareLT [LinearOrder F] (src0 src1 : ℕ → F) (mask repeats : ℕ)
    (params : BinaryRepeatParams) (dst : ℕ → Bool) : ℕ → Bool :=
  scatter (grid repeats mask)
    (fun (rep, e) => rep * (params.dstRepStride * 64) + e)
    (fun (rep, e) => decide
      (src0 (strided params.src0BlkStride params.src0RepStride rep e) <
        src1 (strided params.src1BlkStride params.src1RepStride rep e))) dst

def mulRepeat [Mul F] (src0 src1 : ℕ → F) (mask repeats : ℕ) (params : BinaryRepeatParams)
    (dst : ℕ → F) : ℕ → F :=
  scatter (grid repeats mask)
    (fun (rep, e) => strided params.dstBlkStride params.dstRepStride rep e)
    (fun (rep, e) => src0 (strided params.src0BlkStride params.src0RepStride rep e) *
      src1 (strided params.src1BlkStride params.src1RepStride rep e)) dst

/-! ## Copies -/

/-- Contiguous copy of `n` elements. -/
def dataCopy (src : ℕ → F) (n : ℕ) (dst : ℕ → F) : ℕ → F :=
  scatter (List.range n) id src dst

structure DataCopyExtParams where
  blockCount : ℕ
  /-- bytes in a block -/
  blockLen : ℕ
  /-- bytes between two source blocks -/
  srcStride : ℕ
  /-- 32-byte blocks between two destination blocks -/
  dstStride : ℕ
  deriving Repr, DecidableEq

structure DataCopyPadExtParams (F : Type) where
  isPad : Bool
  leftPadding : ℕ
  rightPadding : ℕ
  paddingValue : F

/-- Elements of a destination block with its padding, rounded up to whole 32-byte
blocks of `perBlock` elements. -/
def paddedLen (perBlock len : ℕ) : ℕ := (len + (perBlock - 1)) / perBlock * perBlock

/-- Copy blocks from GM to UB, elements of `32 / perBlock` bytes, and pad each block. -/
def dataCopyPad (perBlock : ℕ) (params : DataCopyExtParams) (pad : DataCopyPadExtParams F)
    (src dst : ℕ → F) : ℕ → F :=
  let size := 32 / perBlock
  let len := params.blockLen / size
  let left := if pad.isPad then pad.leftPadding else 0
  let right := if pad.isPad then pad.rightPadding else 0
  let pitch := paddedLen perBlock (left + len + right) + params.dstStride * perBlock
  scatter (grid params.blockCount (left + len + right))
    (fun (block, i) => block * pitch + i)
    (fun (block, i) => if left ≤ i ∧ i < left + len then
      src (block * ((params.blockLen + params.srcStride) / size) + (i - left))
      else pad.paddingValue) dst

/-! ## What the instructions leave behind -/

theorem scatter_range {F : Type} {n i : ℕ} {val : ℕ → F} {dst : ℕ → F} :
    scatter (List.range n) id val dst i = if i < n then val i else dst i := by
  by_cases h : i < n
  · rw [if_pos h]
    exact scatter_hit_of_injOn (List.mem_range.mpr h) rfl fun j _ hj => hj
  · rw [if_neg h]
    refine scatter_miss ?_
    intro j hj heq
    rw [List.mem_range] at hj
    simp only [id] at heq
    omega

@[simp] theorem duplicate_apply {val : F} {n i : ℕ} {dst : ℕ → F} :
    duplicate val n dst i = if i < n then val else dst i := scatter_range

@[simp] theorem muls_apply [Mul F] {src dst : ℕ → F} {scalar : F} {n i : ℕ} :
    muls src scalar n dst i = if i < n then src i * scalar else dst i := scatter_range

@[simp] theorem unary_apply {f : F → F} {src dst : ℕ → F} {n i : ℕ} :
    unary f src n dst i = if i < n then f (src i) else dst i := scatter_range

@[simp] theorem mul_apply [Mul F] {src0 src1 dst : ℕ → F} {n i : ℕ} :
    mul src0 src1 n dst i = if i < n then src0 i * src1 i else dst i := scatter_range

@[simp] theorem select_apply {mask : ℕ → Bool} {src dst : ℕ → F} {scalar : F} {n i : ℕ} :
    select mask src scalar n dst i =
      if i < n then (if mask i then src i else scalar) else dst i := scatter_range

@[simp] theorem dataCopy_apply {src dst : ℕ → F} {n i : ℕ} :
    dataCopy src n dst i = if i < n then src i else dst i := scatter_range

/-- With unit block stride and repeat stride 8, block `i` of the destination is filled
with element `i`. -/
theorem brcb_apply {src dst : ℕ → F} {repeats i e : ℕ} (he : e < 8) :
    brcb src repeats 1 8 dst (i * 8 + e) =
      if i < repeats * 8 then src i else dst (i * 8 + e) := by
  by_cases h : i < repeats * 8
  · rw [if_pos h]
    have hmem : (i / 8, i % 8, e) ∈ grid3 repeats 8 8 := by
      rw [mem_grid3]
      omega
    refine (scatter_hit_of_injOn hmem ?_ ?_).trans ?_
    · simp only
      omega
    · rintro ⟨rep, b, e'⟩ hj heq
      rw [mem_grid3] at hj
      simp only at heq
      have h1 : rep = i / 8 := by omega
      have h2 : b = i % 8 := by omega
      have h3 : e' = e := by omega
      rw [h1, h2, h3]
    · simp only
      congr 1
      omega
  · rw [if_neg h]
    refine scatter_miss ?_
    rintro ⟨rep, b, e'⟩ hj heq
    rw [mem_grid3] at hj
    simp only at heq
    omega

/-- A broadcast leaves what is beyond its blocks. -/
theorem brcb_beyond {src dst : ℕ → F} {repeats a : ℕ} (ha : repeats * 64 ≤ a) :
    brcb src repeats 1 8 dst a = dst a := by
  refine scatter_miss ?_
  rintro ⟨rep, b, e⟩ h heq
  rw [mem_grid3] at h
  simp only at heq
  omega

/-- Rows of 64 compared element by element: `src0` holds one block per row, `src1` one
row for all. -/
theorem compareLT_apply [LinearOrder F] {src0 src1 : ℕ → F} {repeats i j : ℕ}
    {dst : ℕ → Bool} (hi : i < repeats) (hj : j < 64) :
    compareLT src0 src1 64 repeats ⟨1, 0, 1, 1, 1, 0⟩ dst (i * 64 + j) =
      decide (src0 (i * 8 + j % 8) < src1 j) := by
  have hmem : (i, j) ∈ grid repeats 64 := by
    rw [mem_grid]
    exact ⟨hi, hj⟩
  refine (scatter_hit_of_injOn hmem (by simp) ?_).trans ?_
  · rintro ⟨rep, e⟩ h heq
    rw [mem_grid] at h
    simp only at heq
    have h1 : rep = i := by omega
    have h2 : e = j := by omega
    rw [h1, h2]
  · have hs : strided 1 0 i j = j := by
      simp only [strided]
      omega
    have hs' : strided 0 1 i j = i * 8 + j % 8 := by
      simp only [strided]
      omega
    simp only [hs, hs']

/-- A compare leaves the bits beyond its rows. -/
theorem compareLT_beyond [LinearOrder F] {src0 src1 : ℕ → F} {repeats a : ℕ} {dst : ℕ → Bool}
    (ha : repeats * 64 ≤ a) :
    compareLT src0 src1 64 repeats ⟨1, 0, 1, 1, 1, 0⟩ dst a = dst a := by
  refine scatter_miss ?_
  rintro ⟨rep, e⟩ h heq
  rw [mem_grid] at h
  simp only at heq
  omega

/-- Rows of 64: one row of `src0` for all, one block of `src1` per row. -/
theorem mulRepeat_apply [Mul F] {src0 src1 dst : ℕ → F} {repeats i j : ℕ} (hi : i < repeats)
    (hj : j < 64) : mulRepeat src0 src1 64 repeats ⟨1, 1, 0, 8, 0, 1⟩ dst (i * 64 + j) =
      src0 j * src1 (i * 8 + j % 8) := by
  have hmem : (i, j) ∈ grid repeats 64 := by
    rw [mem_grid]
    exact ⟨hi, hj⟩
  refine (scatter_hit_of_injOn hmem ?_ ?_).trans ?_
  · simp only [strided]
    omega
  · rintro ⟨rep, e⟩ h heq
    rw [mem_grid] at h
    simp only [strided] at heq
    have h1 : rep = i := by omega
    have h2 : e = j := by omega
    rw [h1, h2]
  · have hs : strided 1 0 i j = j := by
      simp only [strided]
      omega
    have hs' : strided 0 1 i j = i * 8 + j % 8 := by
      simp only [strided]
      omega
    simp only [hs, hs']

/-- A row-wise product leaves what is beyond its rows. -/
theorem mulRepeat_beyond [Mul F] {src0 src1 dst : ℕ → F} {repeats a : ℕ}
    (ha : repeats * 64 ≤ a) : mulRepeat src0 src1 64 repeats ⟨1, 1, 0, 8, 0, 1⟩ dst a = dst a := by
  refine scatter_miss ?_
  rintro ⟨rep, e⟩ h heq
  rw [mem_grid] at h
  simp only [strided] at heq
  omega

/-- Padded blocks at a destination pitch of 64 elements. -/
theorem dataCopyPad_apply {perBlock len right : ℕ} {params : DataCopyExtParams}
    {pad : DataCopyPadExtParams F} {src dst : ℕ → F} (hleft : pad.leftPadding = 0)
    (hlen : params.blockLen / (32 / perBlock) = len)
    (hright : (if pad.isPad then pad.rightPadding else 0) = right) (hfit : len + right ≤ 64)
    (hpitch : paddedLen perBlock (len + right) + params.dstStride * perBlock = 64)
    {b i : ℕ} (hi : i < 64) :
    dataCopyPad perBlock params pad src dst (b * 64 + i) =
      if b < params.blockCount ∧ i < len + right then
        if i < len then
          src (b * ((params.blockLen + params.srcStride) / (32 / perBlock)) + i)
        else pad.paddingValue
      else dst (b * 64 + i) := by
  have hzero : (if pad.isPad = true then pad.leftPadding else 0) = 0 := by
    rw [hleft]
    exact ite_self 0
  simp only [dataCopyPad, hzero, hlen, hright, Nat.zero_add, hpitch, Nat.zero_le, true_and,
    Nat.sub_zero]
  by_cases h : b < params.blockCount ∧ i < len + right
  · rw [if_pos h]
    have hmem : (b, i) ∈ grid params.blockCount (len + right) := by
      rw [mem_grid]
      exact h
    refine (scatter_hit_of_injOn hmem rfl ?_)
    rintro ⟨b', i'⟩ hj heq
    rw [mem_grid] at hj
    simp only at heq
    have h1 : b' = b := by omega
    have h2 : i' = i := by omega
    rw [h1, h2]
  · rw [if_neg h]
    refine scatter_miss ?_
    rintro ⟨b', i'⟩ hj heq
    rw [mem_grid] at hj
    simp only at heq
    apply h
    have h1 : b' = b := by omega
    have h2 : i' = i := by omega
    rw [← h1, ← h2]
    exact hj

end VectorUnit
