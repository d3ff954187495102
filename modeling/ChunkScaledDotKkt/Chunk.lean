import ChunkScaledDotKkt.Tiling
import Mathlib.Tactic.Common

/-!
# Chunk offsets and the device's validity tests

`chunk_offsets` is unconstrained 32-bit data.  Four places of the kernel decide from
it what a chunk is: the two AIC loops, the AIV task and the test for fusing two
adjacent chunks.  All of them subtract in 32 bits.

## Main results

* `validChunk_iff`, `canFuseAdjacentFullChunks_iff` — the tests over the integers,
  for chunks whose length does not wrap.
* `validChunk_of_wraps` — a chunk whose length wraps into range passes every test.
-/

namespace ChunkScaledDotKkt

open MachineInt

/-- The contents of `chunk_offsets`: a 32-bit value at every index. -/
structure ChunkOffsets where
  /-- `chunkOffsetsGm_.GetValue` -/
  getValue : ℤ → ℤ
  le_getValue : ∀ c, -2147483648 ≤ getValue c
  getValue_lt : ∀ c, getValue c < 2147483648

/-- Full chunks of 64 tokens for up to 1000 chunks. -/
def ChunkOffsets.full : ChunkOffsets where
  getValue c := if 0 ≤ c ∧ c ≤ 1000 then 64 * c else 0
  le_getValue c := by split <;> omega
  getValue_lt c := by split <;> omega

def BT : ℤ := 64
def ROW_ELEMS : ℤ := 64
def KKT_ELEMS : ℤ := BT * BT
def SLOT_COUNT : ℤ := 2

namespace ChunkOffsets

variable (offsets : ChunkOffsets)

/-- The 32-bit difference that every stage takes for the length of a chunk. -/
def chunkLen (c : ℤ) : ℤ := i32 (offsets.getValue (c + 1) - offsets.getValue c)

/-- The validity test of a chunk against `t` and the tile height. -/
def validChunk (t : ℤ) (height : ℤ) (c : ℤ) : Bool :=
  offsets.getValue c ≥ 0 && offsets.getValue (c + 1) ≤ t &&
    offsets.chunkLen c > 0 && offsets.chunkLen c ≤ height

end ChunkOffsets

/-- Rows of the packed tile, `M` in both cube stages. -/
def PackedGramMmadCubeStage.M : ℤ := 64

/-- The validity test of the AIC loop: `IsValidChunk` for K = 128, written inline for
K = 256. -/
def PackedGramMmadCubeStage.isValidChunk (mode : KMode) (t : ℤ) (offsets : ChunkOffsets)
    (c : ℤ) : Bool :=
  match mode with
  | .k128 => offsets.validChunk t M c
  | .k256 => offsets.validChunk t M c

namespace VectorStage

/-- `validChunk` of `ProcessPipelineTask`. -/
def validChunk (t : ℤ) (offsets : ChunkOffsets) (c : ℤ) : Bool := offsets.validChunk t BT c

/-- Whether chunks `firstChunkId` and `firstChunkId + 1` are taken as two full
adjacent chunks.  The middle offset is not compared with `t`. -/
def canFuseAdjacentFullChunks (t : ℤ) (offsets : ChunkOffsets) (firstChunkId : ℤ) : Bool :=
  let firstStart := offsets.getValue firstChunkId
  let middle := offsets.getValue (firstChunkId + 1)
  let secondEnd := offsets.getValue (firstChunkId + 2)
  firstStart ≥ 0 && secondEnd ≤ t && i32 (middle - firstStart) == ROW_ELEMS &&
    i32 (secondEnd - middle) == ROW_ELEMS

end VectorStage

namespace ChunkOffsets

variable (offsets : ChunkOffsets)

/-- Chunk `c` lies inside `[0, t)` and has between 1 and 64 tokens, as integers. -/
structure InRange (t c : ℤ) : Prop where
  nonneg : 0 ≤ offsets.getValue c
  start_lt : offsets.getValue c < offsets.getValue (c + 1)
  end_le : offsets.getValue (c + 1) ≤ t
  len_le : offsets.getValue (c + 1) - offsets.getValue c ≤ 64

/-- The length of chunk `c` is so negative that its 32-bit value is back in `1..64`
or beyond. -/
def Wraps (c : ℤ) : Prop := 4294967232 ≤ offsets.getValue c - offsets.getValue (c + 1)

variable {offsets}

/-- A 32-bit length in `1..64` is the true length unless it wrapped. -/
theorem chunkLen_eq {c : ℤ} (hpos : 0 < offsets.chunkLen c) (hle : offsets.chunkLen c ≤ 64)
    (hstart : 0 ≤ offsets.getValue c) (hw : ¬ offsets.Wraps c) :
    offsets.chunkLen c = offsets.getValue (c + 1) - offsets.getValue c := by
  have h1 := offsets.le_getValue c
  have h2 := offsets.getValue_lt c
  have h3 := offsets.le_getValue (c + 1)
  have h4 := offsets.getValue_lt (c + 1)
  unfold Wraps at hw
  unfold chunkLen at hpos hle ⊢
  rcases i32_cases (x := offsets.getValue (c + 1) - offsets.getValue c)
    (by omega) (by omega) with h | ⟨h, -⟩ | ⟨h, -⟩
  · exact h
  · omega
  · omega

/-- A true length that fits is its own 32-bit value. -/
theorem InRange.chunkLen_eq {t c : ℤ} (h : offsets.InRange t c) :
    offsets.chunkLen c = offsets.getValue (c + 1) - offsets.getValue c := by
  have h1 := h.start_lt
  have h2 := h.len_le
  exact i32_eq_self (by omega) (by omega)

theorem InRange.not_wraps {t c : ℤ} (h : offsets.InRange t c) : ¬ offsets.Wraps c := by
  have := h.start_lt
  unfold Wraps
  omega

/-- **The validity test over the integers**, for a chunk whose length does not wrap. -/
theorem validChunk_iff {t c : ℤ} (hw : ¬ offsets.Wraps c) :
    offsets.validChunk t 64 c = true ↔ offsets.InRange t c := by
  simp only [validChunk, Bool.and_eq_true, decide_eq_true_eq]
  constructor
  · rintro ⟨⟨⟨h0, hend⟩, hpos⟩, hle⟩
    have := ChunkOffsets.chunkLen_eq hpos hle h0 hw
    exact ⟨h0, by omega, hend, by omega⟩
  · intro h
    have heq := h.chunkLen_eq
    have h1 := h.start_lt
    have h2 := h.len_le
    exact ⟨⟨⟨h.nonneg, h.end_le⟩, by omega⟩, by omega⟩

/-- **A wrapped length passes the test**: the start is large, the end negative. -/
theorem validChunk_of_wraps {t c : ℤ} (ht : 0 ≤ t) (hw : offsets.Wraps c) :
    offsets.validChunk t 64 c = true := by
  have h1 := offsets.getValue_lt c
  have h2 := offsets.le_getValue (c + 1)
  unfold Wraps at hw
  have hlen : offsets.chunkLen c =
      offsets.getValue (c + 1) - offsets.getValue c + 4294967296 := by
    unfold chunkLen i32
    omega
  simp only [validChunk, Bool.and_eq_true, decide_eq_true_eq]
  omega

/-- **The fuse test over the integers**: two chunks in range, both of length 64. -/
theorem canFuseAdjacentFullChunks_iff {t c : ℤ} (hw : ¬ offsets.Wraps c)
    (hw' : ¬ offsets.Wraps (c + 1)) :
    VectorStage.canFuseAdjacentFullChunks t offsets c = true ↔
      offsets.InRange t c ∧ offsets.InRange t (c + 1) ∧
        offsets.getValue (c + 1) - offsets.getValue c = 64 ∧
        offsets.getValue (c + 2) - offsets.getValue (c + 1) = 64 := by
  have hc : c + 1 + 1 = c + 2 := by omega
  have hlen : i32 (offsets.getValue (c + 1) - offsets.getValue c) = offsets.chunkLen c := rfl
  have hlen' : i32 (offsets.getValue (c + 2) - offsets.getValue (c + 1)) =
      offsets.chunkLen (c + 1) := by
    unfold chunkLen
    rw [hc]
  simp only [VectorStage.canFuseAdjacentFullChunks, ROW_ELEMS, hlen, hlen', Bool.and_eq_true,
    decide_eq_true_eq, beq_iff_eq]
  constructor
  · rintro ⟨⟨⟨h0, hend⟩, h1⟩, h2⟩
    have e1 := ChunkOffsets.chunkLen_eq (by omega) (by omega) h0 hw
    have e2 := ChunkOffsets.chunkLen_eq (by omega) (by omega) (by omega) hw'
    rw [hc] at e2
    have hsecond : offsets.getValue (c + 1 + 1) = offsets.getValue (c + 2) := by rw [hc]
    exact ⟨⟨h0, by omega, by omega, by omega⟩, ⟨by omega, by omega, by omega, by omega⟩,
      by omega, by omega⟩
  · rintro ⟨h, h', h1, h2⟩
    have e1 := h.chunkLen_eq
    have e2 := h'.chunkLen_eq
    have e3 := h'.end_le
    rw [hc] at e2 e3
    exact ⟨⟨⟨h.nonneg, e3⟩, by omega⟩, by omega⟩

end ChunkOffsets

end ChunkScaledDotKkt
