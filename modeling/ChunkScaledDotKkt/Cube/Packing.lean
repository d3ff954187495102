import ChunkScaledDotKkt.Cube.Stage
import Mathlib.Tactic.Positivity

/-!
# Packing K into L1

`CopyPackedKToSharedL1` clears the shared tile when the chunk has a tail and copies
the chunk's rows of K into NZ layout.  The row stride `Hg * K` goes through a 16-bit
descriptor field.

## Main results

* `packed_l1` — what the shared tile holds, in terms of the narrowed stride.
* `packsFaithfully_iff` — the copy is faithful exactly when the stride fits 16 bits.
* `packsData_iff` — the data alone is right also for chunks of one row.
-/

namespace ChunkScaledDotKkt

open MachineInt Buffer CubeUnit PackedGramMmadCubeStage

variable {R : Type}

/-! ## The two instructions -/

theorem nzIndex_inj {r c r' c' : ℕ} (hr : r < 64) (hr' : r' < 64)
    (h : nzIndex 64 r c = nzIndex 64 r' c') : r = r' ∧ c = c' := by
  simp only [nzIndex] at h
  omega

/-- The packed copy of `n` rows writes those rows of the tile and no others. -/
theorem nd2nz_nzIndex {params : Nd2NzParams} (hnd : params.ndNum = 1) (hn : params.nValue ≤ 64)
    (hc0 : params.dstNzC0Stride = 64) (hn1 : params.dstNzNStride = 1) (src dst : ℕ → R)
    {r c : ℕ} (hr : r < 64) (hc : c < params.dValue) :
    nd2nz params src dst (nzIndex 64 r c) =
      if r < params.nValue then src (r * params.srcDValue + c) else dst (nzIndex 64 r c) := by
  have haddr : ∀ nd row col : ℕ, nd < 1 → nd * params.dstNzMatrixStride +
      col / 16 * (params.dstNzC0Stride * 16) + row * (params.dstNzNStride * 16) + col % 16 =
      nzIndex 64 row col := by
    intro nd row col hlt
    obtain rfl : nd = 0 := by omega
    rw [hc0, hn1, nzIndex]
    omega
  by_cases hrow : r < params.nValue
  · rw [if_pos hrow]
    have hmem : (0, r, c) ∈ grid3 params.ndNum params.nValue params.dValue := by
      simp [hnd, hrow, hc]
    refine (scatter_hit_of_injOn hmem (haddr 0 r c (by omega)) ?_).trans ?_
    · rintro ⟨nd, row, col⟩ hj heq
      rw [mem_grid3, hnd] at hj
      simp only [haddr nd row col hj.1, haddr 0 r c (by omega)] at heq
      obtain ⟨h1, h2⟩ := nzIndex_inj (by omega) hr heq
      rw [h1, h2, Nat.lt_one_iff.mp hj.1]
    · simp
  · rw [if_neg hrow]
    refine scatter_miss ?_
    rintro ⟨nd, row, col⟩ hj heq
    rw [mem_grid3, hnd] at hj
    simp only [haddr nd row col hj.1] at heq
    have := (nzIndex_inj (by omega) hr heq).1
    omega

variable [Semiring R]

/-- The fill covers the shared tile: 16 elements a block. -/
theorem clearParams_blocks (mode : KMode) :
    (u16 ((64 * mode.kDim * 2 / 32 : ℕ) : ℤ)).toNat * 16 = 64 * mode.kDim := by
  cases mode
  · decide
  · decide

/-- Clearing the shared tile zeroes it. -/
theorem clear_nzIndex (mode : KMode) (dst : ℕ → R) {r c : ℕ} (hr : r < 64)
    (hc : c < mode.kDim) : initConstValue (clearParams mode) dst (nzIndex 64 r c) = 0 := by
  have hblocks : (clearParams mode : InitConstValueParams R).blockNum * 16 = 64 * mode.kDim :=
    clearParams_blocks mode
  have hlt : nzIndex 64 r c < 64 * mode.kDim := by
    cases mode <;> simp only [nzIndex, KMode.kDim] at hc ⊢ <;> omega
  have hmem : (0, nzIndex 64 r c) ∈ grid (clearParams mode : InitConstValueParams R).repeatTimes
      ((clearParams mode : InitConstValueParams R).blockNum * 16) := by
    rw [hblocks, mem_grid]
    exact ⟨Nat.one_pos, hlt⟩
  refine scatter_hit_of_injOn hmem (by simp) ?_
  rintro ⟨run, i⟩ hj heq
  rw [mem_grid] at hj
  obtain rfl : run = 0 := Nat.lt_one_iff.mp hj.1
  simpa using heq

/-! ## The shared tile -/

/-- The tile that a task packs, with the row stride the descriptor carries. -/
def CubeEnv.tile (env : CubeEnv R) (task : AicTask) (r c : ℕ) : R :=
  if (r : ℤ) < task.chunkLen then
    env.kGm (task.kOffset.toNat +
      (r * (copyParams env.mode env.hg task.chunkLen).srcDValue + c))
  else 0

/-- The shared L1 tile holds `X` in packed order. -/
def Packed (mode : KMode) (X : ℕ → ℕ → R) (l1 : ℕ → R) : Prop :=
  ∀ r < 64, ∀ c < mode.kDim, l1 (nzIndex 64 r c) = X r c

/-- A chunk length the device accepts. -/
def AicTask.Fits (task : AicTask) : Prop := 0 < task.chunkLen ∧ task.chunkLen ≤ 64

/-- Whether the chunk has a tail, `chunkLen < M`. -/
def AicTask.tail (task : AicTask) : Bool := task.chunkLen < 64

theorem copyParams_nValue (mode : KMode) (hg : ℤ) {chunkLen : ℤ} (h0 : 0 < chunkLen)
    (h1 : chunkLen ≤ 64) : (copyParams mode hg chunkLen).nValue = chunkLen.toNat := by
  simp only [copyParams]
  rw [u16_eq_self (by omega) (by omega)]

theorem copyParams_dValue (mode : KMode) (hg chunkLen : ℤ) :
    (copyParams mode hg chunkLen).dValue = mode.kDim := by
  cases mode <;> rfl

/-- The packed copy onto a tile that is zero below the chunk's rows. -/
theorem packed_copy (env : CubeEnv R) {task : AicTask} (hfit : task.Fits) (m : AicMemory R)
    (hzero : task.chunkLen < 64 → ∀ r < 64, ∀ c < env.mode.kDim, m.l1 (nzIndex 64 r c) = 0) :
    Packed env.mode (env.tile task) (AicOp.copyOnePackedOperand.act env task m).l1 := by
  obtain ⟨h0, h1⟩ := hfit
  intro r hr c hc
  have hn := copyParams_nValue env.mode env.hg h0 h1
  simp only [AicOp.act]
  rw [nd2nz_nzIndex rfl (by omega) rfl rfl _ _ hr (by rwa [copyParams_dValue]), hn]
  simp only [CubeEnv.tile]
  by_cases hrow : (r : ℤ) < task.chunkLen
  · rw [if_pos (by omega), if_pos hrow]
    rfl
  · rw [if_neg (by omega), if_neg hrow]
    exact hzero (by omega) r hr c hc

/-- **The shared tile after the copy**, whatever it held before. -/
theorem packed_l1 (env : CubeEnv R) {task : AicTask} (hfit : task.Fits) (m : AicMemory R) :
    Packed env.mode (env.tile task)
      (runOps env task (copyPackedKToSharedL1 task.tail) m).l1 := by
  by_cases htail : task.chunkLen < 64
  · have hops : runOps env task (copyPackedKToSharedL1 task.tail) m =
        AicOp.copyOnePackedOperand.act env task (AicOp.clearSharedL1.act env task m) := by
      simp [AicTask.tail, htail, copyPackedKToSharedL1, runOps, AicOp.act]
    rw [hops]
    refine packed_copy env hfit _ ?_
    intro _ r hr c hc
    exact clear_nzIndex env.mode m.l1 hr hc
  · have hops : runOps env task (copyPackedKToSharedL1 task.tail) m =
        AicOp.copyOnePackedOperand.act env task m := by
      simp [AicTask.tail, htail, copyPackedKToSharedL1, runOps, AicOp.act]
    rw [hops]
    exact packed_copy env hfit m fun h => absurd h htail

/-! ## Faithful packing -/

/-- The task of chunk `c` and KV head `kvHead`. -/
def chunkTask (mode : KMode) (t hg : ℤ) (offsets : ChunkOffsets) (c kvHead : ℤ) : AicTask where
  validChunk := isValidChunk mode t offsets c
  kOffset := (offsets.getValue c * hg + kvHead) * mode.kDim
  chunkLen := offsets.chunkLen c

/-- The packed positions hold `k[start + r, kvHead, col]` for the chunk's rows and zero
below, for every content of K and every previous content of the buffers.

Here K is global memory: an element is read at its flat address.  A chunk whose length
wraps around passes the test without lying in the tensor; its rows are then those that stand
behind the tensor's end. -/
def PacksData (R : Type) [Semiring R] (mode : KMode) (t hg : ℤ) (offsets : ChunkOffsets)
    (c kvHead : ℤ) : Prop :=
  ∀ (kGm : ℕ → R) (groupId : ℕ) (m : AicMemory R), ∀ r < 64, ∀ col < mode.kDim,
    (runOps ⟨mode, hg, groupId, kGm⟩ (chunkTask mode t hg offsets c kvHead)
      (copyPackedKToSharedL1 (chunkTask mode t hg offsets c kvHead).tail) m).l1
        (col / 16 * (64 * 16) + r * 16 + col % 16) =
      if (r : ℤ) < offsets.chunkLen c then
        kGm (((offsets.getValue c + r) * hg + kvHead) * mode.kDim + col).toNat
      else 0

/-- The data is right and every descriptor field equals its unnarrowed value.  As in
`PacksData` the rows are those at the flat addresses, inside the tensor or behind it. -/
def PacksFaithfully (R : Type) [Semiring R] (mode : KMode) (t hg : ℤ) (offsets : ChunkOffsets)
    (c kvHead : ℤ) : Prop :=
  PacksData R mode t hg offsets c kvHead ∧
  copyParams mode hg (offsets.chunkLen c) =
    { ndNum := 1, nValue := (offsets.chunkLen c).toNat, dValue := mode.kDim,
      srcNdMatrixStride := 0, srcDValue := (hg * mode.kDim).toNat, dstNzC0Stride := 64,
      dstNzNStride := 1, dstNzMatrixStride := 0 }

section Faithful

variable {mode : KMode} {t hg : ℤ} {offsets : ChunkOffsets} {c kvHead : ℤ}

/-- A chunk that passes the test has a length the device accepts. -/
theorem isValidChunk_fits (hg kvHead : ℤ) (h : isValidChunk mode t offsets c = true) :
    0 ≤ offsets.getValue c ∧ (chunkTask mode t hg offsets c kvHead).Fits := by
  have h' : offsets.validChunk t 64 c = true := by
    cases mode <;> exact h
  simp only [ChunkOffsets.validChunk, Bool.and_eq_true, decide_eq_true_eq] at h'
  exact ⟨h'.1.1.1, h'.1.2, h'.2⟩

/-- The address a row is read from is the address of that row of K when its stride
is not narrowed. -/
theorem source_address (hstart : 0 ≤ offsets.getValue c) (hhg : 0 < hg) (hkv : 0 ≤ kvHead)
    (r col stride : ℕ) (h : (r * stride : ℕ) = (r : ℤ) * (hg * mode.kDim)) :
    ((offsets.getValue c * hg + kvHead) * mode.kDim).toNat + (r * stride + col) =
      (((offsets.getValue c + r) * hg + kvHead) * mode.kDim + col).toNat := by
  have hbase : 0 ≤ (offsets.getValue c * hg + kvHead) * mode.kDim := by positivity
  have hrow : ((offsets.getValue c + r) * hg + kvHead) * mode.kDim =
      (offsets.getValue c * hg + kvHead) * mode.kDim + (r : ℤ) * (hg * mode.kDim) := by ring
  rw [hrow, ← h]
  omega

/-- The data of the packed copy, when the stride is right for every row the chunk has. -/
theorem packsData_of_stride (hvalid : isValidChunk mode t offsets c = true) (hhg : 0 < hg)
    (hkv : 0 ≤ kvHead)
    (hstride : ∀ r : ℕ, (r : ℤ) < offsets.chunkLen c →
      ((r * (copyParams mode hg (offsets.chunkLen c)).srcDValue : ℕ) : ℤ) =
        (r : ℤ) * (hg * mode.kDim)) :
    PacksData R mode t hg offsets c kvHead := by
  obtain ⟨hstart, hfit⟩ := isValidChunk_fits hg kvHead hvalid
  intro kGm groupId m r hr col hcol
  have h := packed_l1 ⟨mode, hg, groupId, kGm⟩ hfit m r hr col hcol
  have htile : (⟨mode, hg, groupId, kGm⟩ : CubeEnv R).tile
      (chunkTask mode t hg offsets c kvHead) r col = if (r : ℤ) < offsets.chunkLen c then
        kGm (((offsets.getValue c * hg + kvHead) * mode.kDim).toNat +
          (r * (copyParams mode hg (offsets.chunkLen c)).srcDValue + col)) else 0 := rfl
  rw [nzIndex] at h
  rw [h, htile]
  by_cases hrow : (r : ℤ) < offsets.chunkLen c
  · rw [if_pos hrow, if_pos hrow, source_address hstart hhg hkv r col _ (hstride r hrow)]
  · rw [if_neg hrow, if_neg hrow]

theorem srcDValue_eq (mode : KMode) (hhg : 0 < hg) (h : hg * mode.kDim < 65536) (chunkLen : ℤ) :
    (((copyParams mode hg chunkLen).srcDValue : ℕ) : ℤ) = hg * mode.kDim := by
  have hpos : 0 ≤ hg * mode.kDim := by positivity
  simp only [copyParams]
  rw [u16_eq_self hpos h, Int.toNat_of_nonneg hpos]

/-- A stride that does not fit is read back smaller. -/
theorem srcDValue_lt (mode : KMode) (h : 65536 ≤ hg * mode.kDim) (chunkLen : ℤ) :
    (((copyParams mode hg chunkLen).srcDValue : ℕ) : ℤ) < hg * mode.kDim := by
  simp only [copyParams, u16]
  omega

/-- A read from another address than the one meant is wrong for some content of K. -/
theorem packsData_stride [Nontrivial R] (hvalid : isValidChunk mode t offsets c = true)
    (hhg : 0 < hg) (hkv : 0 ≤ kvHead) (h : PacksData R mode t hg offsets c kvHead)
    (hrow : 1 < offsets.chunkLen c) : hg * mode.kDim < 65536 := by
  by_contra hwide
  obtain ⟨hstart, hfit⟩ := isValidChunk_fits hg kvHead hvalid
  have hlt := srcDValue_lt mode (not_lt.mp hwide) (offsets.chunkLen c)
  have hbase : 0 ≤ (offsets.getValue c * hg + kvHead) * mode.kDim := by positivity
  have hK : 0 < mode.kDim := by cases mode <;> decide
  -- K is one at the first element of the second row and zero elsewhere
  let target := ((offsets.getValue c + 1) * hg + kvHead) * mode.kDim
  have htarget : target = (offsets.getValue c * hg + kvHead) * mode.kDim + hg * mode.kDim := by
    simp only [target]
    ring
  let kGm : ℕ → R := fun a => if (a : ℤ) = target then 1 else 0
  let m : AicMemory R := ⟨fun _ => 0, fun _ _ => 0, fun _ _ => 0, fun _ => 0, fun _ => 0⟩
  have hdata := h kGm 0 m 1 (by omega) 0 hK
  have hpacked := packed_l1 ⟨mode, hg, 0, kGm⟩ hfit m 1 (by omega) 0 hK
  have htile : (⟨mode, hg, 0, kGm⟩ : CubeEnv R).tile (chunkTask mode t hg offsets c kvHead) 1 0 =
      if ((1 : ℕ) : ℤ) < offsets.chunkLen c then
        kGm (((offsets.getValue c * hg + kvHead) * mode.kDim).toNat +
          (1 * (copyParams mode hg (offsets.chunkLen c)).srcDValue + 0)) else 0 := rfl
  rw [nzIndex] at hpacked
  rw [hpacked, htile, if_pos (by simpa using hrow), if_pos (by simpa using hrow)] at hdata
  have hwrong : ¬ ((((offsets.getValue c * hg + kvHead) * mode.kDim).toNat +
      (1 * (copyParams mode hg (offsets.chunkLen c)).srcDValue + 0) : ℕ) : ℤ) = target := by
    rw [htarget]
    omega
  have hright : (((((offsets.getValue c + ((1 : ℕ) : ℤ)) * hg + kvHead) * mode.kDim +
      ((0 : ℕ) : ℤ)).toNat : ℕ) : ℤ) = target := by
    simp only [Nat.cast_one, Nat.cast_zero, add_zero]
    omega
  simp only [kGm] at hdata
  rw [if_neg hwrong, if_pos hright] at hdata
  exact zero_ne_one hdata

/-- **The packed data is right exactly when the row stride fits 16 bits or the chunk has
one row.** -/
theorem packsData_iff [Nontrivial R] (hvalid : isValidChunk mode t offsets c = true)
    (hhg : 0 < hg) (hkv : 0 ≤ kvHead) : PacksData R mode t hg offsets c kvHead ↔
      hg * mode.kDim < 65536 ∨ offsets.chunkLen c = 1 := by
  have hpos : 0 < offsets.chunkLen c := (isValidChunk_fits hg kvHead hvalid).2.1
  constructor
  · intro h
    by_cases hone : offsets.chunkLen c = 1
    · exact Or.inr hone
    · exact Or.inl (packsData_stride hvalid hhg hkv h (by omega))
  · intro h
    refine packsData_of_stride hvalid hhg hkv ?_
    intro r hr
    rcases h with hfit | hone
    · rw [Nat.cast_mul, srcDValue_eq mode hhg hfit]
    · obtain rfl : r = 0 := by omega
      simp

end Faithful

open Optiling in
/-- **Packing is faithful exactly when the row stride `Hg * K` fits its 16-bit field.** -/
theorem packsFaithfully_iff {context : TilingContext} {shape : ShapeInfo}
    (hshape : validateAndReadShape context = .ok shape) {mode : KMode}
    (hmode : shape.kDim = mode.kDim) {offsets : ChunkOffsets} {c : ℤ}
    (hvalid : isValidChunk mode shape.t offsets c = true) {kvHead : ℤ} (hkv : 0 ≤ kvHead) :
    PacksFaithfully R mode shape.t shape.hg offsets c kvHead ↔
      shape.hg * shape.kDim < 65536 := by
  have hhg := (validateAndReadShape_accepted hshape).hg_pos
  obtain ⟨-, hfit⟩ := isValidChunk_fits shape.hg kvHead hvalid
  rw [hmode]
  constructor
  · rintro ⟨-, hparams⟩
    by_contra hwide
    have hlt := srcDValue_lt mode (not_lt.mp hwide) (offsets.chunkLen c)
    rw [hparams] at hlt
    have hpos : 0 ≤ shape.hg * mode.kDim := by positivity
    simp only [Int.toNat_of_nonneg hpos] at hlt
    exact lt_irrefl _ hlt
  · intro h
    have hstride := srcDValue_eq mode hhg h (offsets.chunkLen c)
    constructor
    · refine packsData_of_stride hvalid hhg hkv ?_
      intro r _
      rw [Nat.cast_mul, hstride]
    · have hn := copyParams_nValue mode shape.hg hfit.1 hfit.2
      have hd := copyParams_dValue mode shape.hg (offsets.chunkLen c)
      have hs : (copyParams mode shape.hg (offsets.chunkLen c)).srcDValue =
          (shape.hg * mode.kDim).toNat := by omega
      simp only [copyParams, Nd2NzParams.mk.injEq]
      exact ⟨trivial, hn, hd, trivial, hs, rfl, trivial, trivial⟩

open Optiling in
theorem packsFaithfully_iff_sample :
    PacksFaithfully ℤ .k128 2560 1 ChunkOffsets.full 0 0 ↔ (1 : ℤ) * 128 < 65536 :=
  @packsFaithfully_iff ℤ _ sampleContext ⟨2560, 3, 1, 128, 40⟩ rfl .k128 rfl ChunkOffsets.full 0
    (by decide) 0 (by decide)

/-- A call with `Hg = 512`: the row stride `512 * 128` is `2^16`. -/
def wideContext : Optiling.TilingContext where
  kShape := some [1, 64, 512, 128]
  betaShape := some [1, 512, 64]
  gShape := some [1, 512, 64]
  offsetShape := some [2]
  platformInfo := true
  coreNumAic := 20
  libApiWorkSpaceSize := 0
  tilingData := true
  setScheduleMode := true
  setBlockDim := true
  workspaceSizes := true

open Optiling in
/-- With `Hg = 512` every packed row is a copy of the chunk's first row. -/
theorem packsFaithfully_wide : ¬ ∀ (context : TilingContext) (shape : ShapeInfo) (mode : KMode)
    (offsets : ChunkOffsets) (c kvHead : ℤ), validateAndReadShape context = .ok shape →
    shape.kDim = mode.kDim → isValidChunk mode shape.t offsets c = true → 0 ≤ kvHead →
    kvHead < shape.hg → PacksFaithfully ℤ mode shape.t shape.hg offsets c kvHead := by
  intro h
  have hdata := (h wideContext ⟨64, 512, 512, 128, 1⟩ .k128 ChunkOffsets.full 0 0 rfl rfl
    (by decide) (by decide) (by decide)).1
  have := (packsData_iff (by decide) (by decide) (by decide)).mp hdata
  exact absurd this (by decide)

end ChunkScaledDotKkt
