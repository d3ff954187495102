import ChunkScaledDotKkt.Cube.Gram
import ChunkScaledDotKkt.Discipline
import ChunkScaledDotKkt.Vector.TaskDelivery

/-!
# The operator

What the kernel is for, in terms of its tensors: row `i` and column `j` of a chunk of a
query head get `beta i * exp (g i - g j)` times the product of the rows `i` and `j` of the
head's KV head in K where the gate grows from `i` to `j`, and 0 elsewhere.  An address of the
output is an element of at most one chunk, so the operator says what it gets.

## Main results

* `formula_eq_element` — the vector stage's formula over a committed Gram tile.
* `Launch.IsElement.unique` — an address has one value.
-/

namespace ChunkScaledDotKkt

open VectorStage PackedGramMmadCubeStage

/-- The tensors in global memory, and the exponential. -/
structure KernelInputs (F : Type) where
  kGm : ℕ → F
  gGm : ℕ → F
  betaGm : ℕ → F
  exp : F → F

namespace KernelInputs

variable {F : Type} (x : KernelInputs F)

/-- `k[token, kvHead, channel]` -/
def k (hg : ℤ) (kDim : ℕ) (token kvHead : ℤ) (channel : ℕ) : F :=
  x.kGm ((token * hg + kvHead) * kDim + channel).toNat

/-- `g[head, token]` -/
def g (t head token : ℤ) : F := x.gGm (head * t + token).toNat

/-- `beta[head, token]` -/
def beta (t head token : ℤ) : F := x.betaGm (head * t + token).toNat

/-- The vector stage's view of the tensors and of the workspace. -/
def laneEnv (t : ℤ) (kktWorkspace : ℕ → F) : LaneEnv F where
  t := t
  gGm := x.gGm
  betaGm := x.betaGm
  kktWorkspace := kktWorkspace
  exp := x.exp

/-- The cube stage's view of K. -/
def cubeEnv (mode : KMode) (hg : ℤ) (groupId : ℕ) : CubeEnv F := ⟨mode, hg, groupId, x.kGm⟩

/-- **The operator**: column `j` of the row of token `start + i`, for a chunk of `len`
tokens from `start`. -/
def element [CommRing F] [LinearOrder F] (tiling : ChunkScaledDotKktTilingData) (kDim : ℕ)
    (start len head : ℤ) (i j : ℕ) : F :=
  let kvHead := head / tiling.numRepeat
  let gate := fun i : ℕ => x.g tiling.t head (start + i)
  if j < len ∧ gate i < gate j then
    x.beta tiling.t head (start + i) * x.exp (gate i - gate j) *
      ∑ c ∈ Finset.range kDim, x.k tiling.hg kDim (start + i) kvHead c *
        x.k tiling.hg kDim (start + j) kvHead c
  else 0

end KernelInputs

/-! ## The tile of a task -/

section

variable {F : Type} {x : KernelInputs F} {mode : KMode} {tiling : ChunkScaledDotKktTilingData}
  {offsets : ChunkOffsets} {g c kv : ℕ}

theorem gateValue_eq (kktWorkspace : ℕ → F) (t head start : ℤ) (i : ℕ) :
    QueueId.gate.value (x.laneEnv t kktWorkspace) head start i = x.g t head (start + i) ∧
      QueueId.beta.value (x.laneEnv t kktWorkspace) head start i = x.beta t head (start + i) := by
  simp only [QueueId.value, QueueId.gm, KernelInputs.laneEnv, KernelInputs.g, KernelInputs.beta,
    Int.add_assoc, and_self]

/-- A round of the AIC on chunk `c` and KV head `kv`. -/
def chunkRound (localRound slotId : ℤ) (c kv : ℕ) : Round := ⟨localRound, slotId, c, kv⟩

variable (x g kv) in
/-- The rows that a task packs are rows of K, when the descriptor's stride holds. -/
theorem tile_eq [Semiring F] (hin : offsets.InRange tiling.t c) (hhg : 0 < tiling.hg)
    (hfit : tiling.hg * mode.kDim < 65536) (localRound slotId : ℤ) {i : ℕ}
    (hi : i < offsets.getValue (c + 1) - offsets.getValue c) (col : ℕ) :
    (x.cubeEnv mode tiling.hg g).tile
      (PackedGramMmadCubeStage.task mode tiling offsets (chunkRound localRound slotId c kv)) i col =
        x.k tiling.hg mode.kDim (offsets.getValue c + i) kv col := by
  have hlen : (i : ℤ) < offsets.chunkLen c := by
    rw [hin.chunkLen_eq]
    exact hi
  have hstride := srcDValue_eq mode hhg hfit (offsets.chunkLen c)
  have haddr : ((offsets.getValue c * tiling.hg + kv) * mode.kDim).toNat +
      (i * (copyParams mode tiling.hg (offsets.chunkLen c)).srcDValue + col) =
        (((offsets.getValue c + i) * tiling.hg + kv) * mode.kDim + col).toNat :=
    source_address hin.nonneg hhg (Int.natCast_nonneg kv) i col _ (by rw [Nat.cast_mul, hstride])
  rw [CubeEnv.tile]
  exact (if_pos hlen).trans (congrArg x.kGm haddr)

/-- **The formula over a committed tile is the operator.** -/
theorem formula_eq_element [CommRing F] [LinearOrder F] (hin : offsets.InRange tiling.t c)
    (hhg : 0 < tiling.hg) (hfit : tiling.hg * mode.kDim < 65536) (localRound roundSlot : ℤ)
    {slotId : ℕ} {m : AicMemory F}
    (hgram : (x.cubeEnv mode tiling.hg g).HoldsGram
      (PackedGramMmadCubeStage.task mode tiling offsets (chunkRound localRound roundSlot c kv))
        slotId m)
    {head : ℤ} (hhead : head / tiling.numRepeat = kv) {i j : ℕ}
    (hi : i < offsets.getValue (c + 1) - offsets.getValue c) (hj : j < 64) :
    (x.laneEnv tiling.t m.workspace).formula g slotId head (offsets.getValue c)
        (offsets.getValue (c + 1) - offsets.getValue c).toNat i j =
      x.element tiling mode.kDim (offsets.getValue c)
        (offsets.getValue (c + 1) - offsets.getValue c) head i j := by
  have hle := hin.len_le
  have hcol : j < (offsets.getValue (c + 1) - offsets.getValue c).toNat ↔
      (j : ℤ) < offsets.getValue (c + 1) - offsets.getValue c := by omega
  have hvalue := fun i => gateValue_eq (x := x) m.workspace tiling.t head (offsets.getValue c) i
  simp only [LaneEnv.formula, KernelInputs.element, hcol, hhead, fun i => (hvalue i).1,
    fun i => (hvalue i).2]
  refine if_ctx_congr Iff.rfl (fun hactive => ?_) fun _ => rfl
  have htile : (x.laneEnv tiling.t m.workspace).gram g slotId i j = ∑ c' ∈ Finset.range mode.kDim,
      x.k tiling.hg mode.kDim (offsets.getValue c + i) kv c' *
        x.k tiling.hg mode.kDim (offsets.getValue c + j) kv c' := by
    refine (hgram i (by omega) j hj).trans ?_
    refine Finset.sum_congr rfl fun c' _ => ?_
    have hrow := tile_eq x g kv hin hhg hfit localRound roundSlot hi c'
    have hrow' := tile_eq x g kv hin hhg hfit localRound roundSlot hactive.1 c'
    simp only [KernelInputs.cubeEnv] at hrow hrow' ⊢
    rw [hrow, hrow']
  rw [htile]
  rfl

end

/-! ## The elements of the output -/

namespace Launch

variable {F : Type} [CommRing F] [LinearOrder F] (L : Launch) (offsets : ChunkOffsets)
  (x : KernelInputs F) (kDim : ℕ)

/-- The address is an element of a chunk in range, and this is its value. -/
def IsElement (a : ℤ) (v : F) : Prop :=
  ∃ c < L.chunks, offsets.InRange L.tiling.t c ∧
    ∃ head, 0 ≤ head ∧ head < L.tiling.hg * L.tiling.numRepeat ∧ ∃ i j : ℕ,
      i < offsets.getValue (c + 1) - offsets.getValue c ∧ j < 64 ∧
      a = elementOffset L.tiling.t head (offsets.getValue c + i) j ∧
      v = x.element L.tiling kDim (offsets.getValue c)
        (offsets.getValue (c + 1) - offsets.getValue c) head i j

variable {L offsets x kDim}

/-- **An address has one value** when no chunk has a negative length. -/
theorem IsElement.unique (hmono : offsets.Nondecreasing L.chunks) {a : ℤ} {v v' : F}
    (h : L.IsElement offsets x kDim a v) (h' : L.IsElement offsets x kDim a v') : v = v' := by
  obtain ⟨c, hc, hin, head, -, -, i, j, hi, hj, rfl, rfl⟩ := h
  obtain ⟨c', hc', hin', head', -, -, i', j', hi', hj', heq, rfl⟩ := h'
  have h0 := hin.nonneg
  have h0' := hin'.nonneg
  have hend := hin.end_le
  have hend' := hin'.end_le
  obtain ⟨rfl, htoken, rfl⟩ := elementOffset_inj (by omega) (by omega) (by omega) (by omega) hj hj'
    heq
  -- a later chunk starts at or after the end of an earlier one
  have hchunk : c = c' := by
    by_contra hne
    have hcases : c < c' ∨ c' < c := by omega
    cases hcases with
    | inl hlt =>
        have hle := hmono.le (Nat.succ_le_of_lt hlt) hc'.le
        push_cast at hle
        omega
    | inr hlt =>
        have hle := hmono.le (Nat.succ_le_of_lt hlt) hc.le
        push_cast at hle
        omega
  subst hchunk
  obtain rfl : i = i' := by omega
  rfl

end Launch

end ChunkScaledDotKkt
