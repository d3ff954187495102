import ChunkScaledDotKkt.Coverage
import ChunkScaledDotKkt.Cube.Packing
import ChunkScaledDotKkt.Vector.LoadDiscipline
import ChunkScaledDotKkt.Vector.Memory

/-!
# What the guards let through

`chunk_offsets` is never checked by the host, so every access to the tensors rests on the
validity tests of the device.  The tests are sound, every access of a processed chunk
is inside its tensor and a lane copies only tiles that the AIC commits, exactly when no
length of the array wraps.

## Main results

* `gateReads_inside`, `kReads_inside` — a command for a chunk in range reads inside its
  tensor.
* `guarded_iff` — when the guards hold for a whole launch.
-/

namespace ChunkScaledDotKkt

open MachineInt Buffer VectorStage BlockCopy

/-! ## Accesses -/

namespace PackedGramMmadCubeStage

/-- The commands of a turn of the task loop, as it reads the offsets. -/
def roundOps (mode : KMode) (tiling : ChunkScaledDotKktTilingData) (offsets : ChunkOffsets)
    (groupId localRound64 : ℤ) : List AicOp :=
  let r := round tiling groupId localRound64
  let task := task mode tiling offsets r
  taskOps mode task.validChunk task.tail (waitsFree r) r.slotId.toNat

/-- The elements of `kGm_` that a command of a task reads. -/
def kReads (mode : KMode) (hg : ℤ) (task : AicTask) : AicOp → List ℤ
  | .copyOnePackedOperand =>
      let params := copyParams mode hg task.chunkLen
      (grid params.nValue params.dValue).map fun (row, col) =>
        task.kOffset + (row * params.srcDValue + col : ℕ)
  | _ => []

/-- Rows of a chunk inside `[0, t)` are rows of K, even with a stride that was narrowed. -/
theorem kReads_inside {mode : KMode} {t hg start kvHead : ℤ} (task : AicTask)
    (hstart : 0 ≤ start) (hend : start + task.chunkLen ≤ t) (hfit : task.Fits) (hkv : 0 ≤ kvHead)
    (hlt : kvHead < hg) (hoffset : task.kOffset = (start * hg + kvHead) * mode.kDim) (op : AicOp) :
    ∀ a ∈ kReads mode hg task op, 0 ≤ a ∧ a < t * hg * mode.kDim := by
  intro a ha
  cases op
  case copyOnePackedOperand =>
    simp only [kReads, List.mem_map, Prod.exists, mem_grid] at ha
    obtain ⟨row, col, ⟨hrow, hcol⟩, rfl⟩ := ha
    rw [copyParams_nValue mode hg hfit.1 hfit.2] at hrow
    rw [copyParams_dValue] at hcol
    have hK : (0 : ℤ) < mode.kDim := by cases mode <;> decide
    have hpos : 0 ≤ hg * mode.kDim := mul_nonneg (by omega) hK.le
    have hstride : ((copyParams mode hg task.chunkLen).srcDValue : ℤ) ≤ hg * mode.kDim := by
      have hle := u16_le hpos
      have h0 := u16_nonneg (hg * mode.kDim)
      simp only [copyParams]
      omega
    have hread : (row : ℤ) * (copyParams mode hg task.chunkLen).srcDValue ≤
        row * (hg * mode.kDim) := mul_le_mul_of_nonneg_left hstride (by omega)
    have h0 : (0 : ℤ) ≤ row * (copyParams mode hg task.chunkLen).srcDValue := by positivity
    have hbase : 0 ≤ (start * hg + kvHead) * mode.kDim :=
      mul_nonneg (add_nonneg (mul_nonneg hstart (by omega)) hkv) hK.le
    -- the last element of the row is before the end of its token
    have hhead : (kvHead + 1) * mode.kDim ≤ hg * mode.kDim :=
      mul_le_mul_of_nonneg_right (by omega) hK.le
    have htoken : (start + row + 1) * (hg * mode.kDim) ≤ t * (hg * mode.kDim) :=
      mul_le_mul_of_nonneg_right (by omega) hpos
    have hlast : (start * hg + kvHead) * mode.kDim + row * (hg * mode.kDim) + mode.kDim ≤
        t * hg * mode.kDim := by
      calc (start * hg + kvHead) * mode.kDim + row * (hg * mode.kDim) + mode.kDim
          = (start + row) * (hg * mode.kDim) + (kvHead + 1) * mode.kDim := by ring
        _ ≤ (start + row) * (hg * mode.kDim) + hg * mode.kDim := by omega
        _ = (start + row + 1) * (hg * mode.kDim) := by ring
        _ ≤ t * (hg * mode.kDim) := htoken
        _ = t * hg * mode.kDim := by ring
    rw [hoffset]
    push_cast
    omega
  all_goals cases ha

end PackedGramMmadCubeStage

/-- The elements of `gGm_` or `betaGm_` that a command of a lane reads. -/
def LaneOp.gateReads (t : ℤ) : LaneOp → List ℤ
  | .copyGateOrBeta id firstHeadId start chunkLen batchHeads =>
      let offset := firstHeadId * t + start
      if chunkLen = 64 ∧ batchHeads = 1 then (List.range 64).map fun i : ℕ => offset + i
      else
        let params := gateOrBetaParams id.perBlock t chunkLen batchHeads
        let size := 32 / id.perBlock
        (grid params.blockCount (params.blockLen / size)).map fun (block, i) =>
          offset + (block * ((params.blockLen + params.srcStride) / size) + i : ℕ)
  | _ => []

/-- The prefetch of one or two heads reads rows of those heads, whatever `t` is. -/
theorem gateReads_inside {t heads firstHeadId start : ℤ} {chunkLen batchHeads : ℕ} (id : QueueId)
    (hhead : 0 ≤ firstHeadId) (hlast : firstHeadId + batchHeads ≤ heads) (hstart : 0 ≤ start)
    (hend : start + chunkLen ≤ t) (hlen : chunkLen ≤ 64) (hbatch : batchHeads ≤ 2) :
    ∀ a ∈ (LaneOp.copyGateOrBeta id firstHeadId start chunkLen batchHeads).gateReads t,
      0 ≤ a ∧ a < heads * t := by
  have h0 : 0 ≤ firstHeadId * t := mul_nonneg hhead (by omega)
  -- an element of row `block` of the copy
  have hrow : ∀ {block i : ℕ} {x : ℤ}, block < batchHeads → i < chunkLen → 0 ≤ x → x ≤ t →
      0 ≤ firstHeadId * t + start + (block * x + i) ∧
        firstHeadId * t + start + (block * x + i) < heads * t := by
    intro block i x hblock hi hx0 hx
    have hle : (block : ℤ) * x ≤ block * t := mul_le_mul_of_nonneg_left hx (by omega)
    have hpos : (0 : ℤ) ≤ block * x := mul_nonneg (by omega) hx0
    have hnext : (firstHeadId + block + 1) * t ≤ heads * t :=
      mul_le_mul_of_nonneg_right (by omega) (by omega)
    have hexpand : (firstHeadId + block + 1) * t = firstHeadId * t + block * t + t := by ring
    omega
  intro a ha
  by_cases hfull : chunkLen = 64 ∧ batchHeads = 1
  · rw [LaneOp.gateReads, if_pos hfull, List.mem_map] at ha
    obtain ⟨i, hi, rfl⟩ := ha
    rw [List.mem_range] at hi
    have := @hrow 0 i 0 (by omega) (by omega) (by omega) (by omega)
    simpa using this
  · simp only [LaneOp.gateReads, if_neg hfull, List.mem_map, Prod.exists, mem_grid] at ha
    obtain ⟨block, i, ⟨hblock, hi⟩, rfl⟩ := ha
    have hparams : (gateOrBetaParams id.perBlock t chunkLen batchHeads).blockCount = batchHeads ∧
        (gateOrBetaParams id.perBlock t chunkLen batchHeads).blockLen / (32 / id.perBlock) =
          chunkLen ∧
        ((((gateOrBetaParams id.perBlock t chunkLen batchHeads).blockLen +
          (gateOrBetaParams id.perBlock t chunkLen batchHeads).srcStride) /
            (32 / id.perBlock) : ℕ) : ℤ) ≤ t := by
      cases id <;> simp only [gateOrBetaParams, QueueId.perBlock, u16, u32] <;> omega
    obtain ⟨hcount, hblockLen, hstride⟩ := hparams
    rw [hcount] at hblock
    rw [hblockLen] at hi
    push_cast at hstride ⊢
    exact hrow hblock hi (by positivity) hstride

namespace VectorStage

/-! ## The prefetches of a round -/

theorem not_mem_of_load {op : LaneOp} {ops : List LaneOp} (h : ops.filter LaneOp.isLoad = [])
    (hop : op.isLoad = true) : op ∉ ops := by
  intro hmem
  have : op ∈ ops.filter LaneOp.isLoad := List.mem_filter.mpr ⟨hmem, hop⟩
  rw [h] at this
  cases this

theorem copy_of_mem_prefetch {id : QueueId} {firstHeadId start firstHeadId' start' : ℤ}
    {chunkLen batchHeads chunkLen' batchHeads' : ℕ}
    (h : .copyGateOrBeta id firstHeadId start chunkLen batchHeads ∈
      prefetchGateAndBetaBatch firstHeadId' start' chunkLen' batchHeads') :
    firstHeadId = firstHeadId' ∧ start = start' ∧ chunkLen = chunkLen' ∧
      batchHeads = batchHeads' := by
  simp only [prefetchGateAndBetaBatch, List.mem_cons, List.not_mem_nil, reduceCtorEq, or_false,
    false_or, LaneOp.copyGateOrBeta.injEq] at h
  omega

namespace PipelineTask

variable {tiling : ChunkScaledDotKktTilingData} {groupId : ℕ} {task : PipelineTask}

/-- A turn of the batch loop prefetches the next batch and nothing else. -/
theorem copy_of_mem_batchOps {batchId : ℕ} {id : QueueId} {firstHeadId start : ℤ}
    {chunkLen batchHeads : ℕ}
    (h : .copyGateOrBeta id firstHeadId start chunkLen batchHeads ∈ task.batchOps tiling batchId) :
    .copyGateOrBeta id firstHeadId start chunkLen batchHeads ∈
      task.prefetchNext tiling batchId := by
  have hprepare : LaneOp.copyGateOrBeta id firstHeadId start chunkLen batchHeads ∉
      task.prepareBatch batchId := not_mem_of_load (task.prepareBatch_load batchId) rfl
  have htail : LaneOp.copyGateOrBeta id firstHeadId start chunkLen batchHeads ∉
      (if task.chunkLen ≠ ROW_ELEMS then zeroTailGateAndBetaBatchSuffix task.chunkLen.toNat
        (task.batchHeads batchId) else []) := not_mem_of_load (task.zeroTail_load batchId) rfl
  have hfinalize : LaneOp.copyGateOrBeta id firstHeadId start chunkLen batchHeads ∉
      task.finalizeBatch tiling batchId := by
    by_cases hheads : (task.batchHeads batchId : ℤ) = GATE_HEAD_BATCH
    · simp [finalizeBatch, hheads, finalizeHeadPairWithKkt]
    · simp [finalizeBatch, hheads, finalizeHeadWithKkt]
  have hcomplete : LaneOp.copyGateOrBeta id firstHeadId start chunkLen batchHeads ∉
      completeKktLoadAndReleaseSlot task.slotId task.willReuseSlot := by
    cases task.willReuseSlot <;> simp [completeKktLoadAndReleaseSlot]
  by_cases hfirst : batchId = 0
  · simpa only [batchOps, if_pos hfirst, List.mem_append, List.mem_cons, List.not_mem_nil,
      reduceCtorEq, or_false, false_or, hprepare, htail, hfinalize, hcomplete] using h
  · simpa only [batchOps, if_neg hfirst, List.mem_append, List.mem_cons, List.not_mem_nil,
      reduceCtorEq, or_false, false_or, hprepare, htail, hfinalize, hcomplete] using h

/-- **A task prefetches its batches.** -/
theorem copy_of_mem_ops (hlt : task.hasWork = true → task.firstRepeat < task.repeatEnd)
    {id : QueueId} {firstHeadId start : ℤ} {chunkLen batchHeads : ℕ}
    (h : .copyGateOrBeta id firstHeadId start chunkLen batchHeads ∈ task.ops tiling groupId) :
    task.hasWork = true ∧ ∃ b < task.batchCount,
      firstHeadId = task.firstHead tiling + task.batchRepeat b ∧ start = task.start ∧
        chunkLen = task.chunkLen.toNat ∧ batchHeads = task.batchHeads b := by
  cases hwork : task.hasWork with
  | false =>
      cases hreuse : task.willReuseSlot <;> simp [ops, hwork, hreuse] at h
  | true =>
      refine ⟨rfl, ?_⟩
      have hload : LaneOp.copyGateOrBeta id firstHeadId start chunkLen batchHeads ∉
          beginLoadKktSlot groupId task.slotId task.chunkLen.toNat task.rowStart.toNat
            task.rowCount.toNat := by
        by_cases hlen : task.chunkLen.toNat = 64 <;> simp [beginLoadKktSlot, hlen]
      simp only [ops, hwork, if_true, List.mem_append, hload, false_or, List.mem_singleton,
        reduceCtorEq, or_false, processHeadRange, List.mem_flatMap, List.mem_range] at h
      cases h with
      | inl h =>
          have hzero : 0 < task.batchCount := by
            rw [lt_batchCount_iff (hlt hwork), batchRepeat]
            have := hlt hwork
            simpa using this
          obtain ⟨h1, h2, h3, h4⟩ := copy_of_mem_prefetch h
          exact ⟨0, hzero, h1, h2, h3, h4⟩
      | inr h =>
          obtain ⟨b, hb, hmem⟩ := h
          have hnext := copy_of_mem_batchOps hmem
          by_cases hlast : b + 1 < task.batchCount
          · rw [prefetchNext, if_pos hlast] at hnext
            obtain ⟨h1, h2, h3, h4⟩ := copy_of_mem_prefetch hnext
            exact ⟨b + 1, hlast, h1, h2, h3, h4⟩
          · rw [prefetchNext, if_neg hlast] at hnext
            cases hnext

end PipelineTask

theorem pipelineTask_slotId (tiling : ChunkScaledDotKktTilingData) (offsets : ChunkOffsets)
    (taskId aivLane localRound : ℤ) (reuse : Bool) :
    (pipelineTask tiling offsets taskId aivLane localRound reuse).slotId =
      (slotIdOf localRound).toNat := rfl

/-- **A fused pair prefetches its heads** for each of its chunks. -/
theorem ChunkPair.copy_of_mem_chunkOps {pair : ChunkPair} {groupId slotId out0 out1 : ℕ} {start : ℤ}
    {reuse : Bool} {id : QueueId} {firstHeadId start' : ℤ} {chunkLen batchHeads : ℕ}
    (h : .copyGateOrBeta id firstHeadId start' chunkLen batchHeads ∈
      pair.chunkOps groupId start slotId reuse out0 out1) :
    firstHeadId = pair.firstHeadId ∧ start' = start ∧ chunkLen = 64 ∧
      batchHeads = pair.kHeadCount := by
  have hsingle : LaneOp.copyGateOrBeta id firstHeadId start' chunkLen batchHeads ∉
      prepareHeadFactor 64 0 64 out0 := not_mem_of_load (prepareHeadFactor_load 64 0 64 out0) rfl
  have hpair : LaneOp.copyGateOrBeta id firstHeadId start' chunkLen batchHeads ∉
      prepareHeadPairFactor 64 64 out0 out1 :=
    not_mem_of_load (prepareHeadPairFactor_load 64 64 out0 out1) rfl
  suffices hmem : .copyGateOrBeta id firstHeadId start' chunkLen batchHeads ∈
      prefetchGateAndBetaBatch pair.firstHeadId start 64 pair.kHeadCount from
    copy_of_mem_prefetch hmem
  cases hk : pair.kPair <;> cases reuse <;>
    simpa [chunkOps, hk, beginLoadKktSlot, completeKktLoadAndReleaseSlot, hsingle, hpair] using h

end VectorStage

namespace Launch

variable {L : Launch} {offsets : ChunkOffsets} {mode : KMode} {g r lane : ℕ}

/-! ## A round of a lane against the round of the AIC -/

theorem isValidChunk_eq (mode : KMode) (t : ℤ) (offsets : ChunkOffsets) (c : ℤ) :
    PackedGramMmadCubeStage.isValidChunk mode t offsets c = offsets.validChunk t 64 c := by
  cases mode <;> rfl

/-- The AIC's round, for any number of rounds. -/
theorem aicRound_place (hg : g < L.groups) (hr : r < L.count g) :
    PackedGramMmadCubeStage.round L.tiling g r =
      ⟨i32 r, slotIdOf (i32 r), (L.place g r).1, (L.place g r).2⟩ := by
  obtain ⟨h1, h2⟩ := task_tdiv_tmod hg hr
  simp only [PackedGramMmadCubeStage.round, L.taskId_eq, h1, h2]

/-- The commands of a round read inside their tensors and copy the tile that the AIC
commits in the same round. -/
structure RoundGuarded (L : Launch) (offsets : ChunkOffsets) (mode : KMode) (g r : ℕ)
    (ops : List LaneOp) : Prop where
  gateReads : ∀ op ∈ ops, ∀ a ∈ op.gateReads L.tiling.t,
    0 ≤ a ∧ a < L.tiling.hg * L.tiling.numRepeat * L.tiling.t
  tile : ∀ groupId slotId chunkLen rowStart rowCount,
    .copyKkt groupId slotId chunkLen rowStart rowCount ∈ ops → groupId = g ∧
      .commitWorkspace slotId ∈ PackedGramMmadCubeStage.roundOps mode L.tiling offsets g r

theorem commit_mem_taskOps (mode : KMode) (tail reuse : Bool) (slotId : ℕ) :
    .commitWorkspace slotId ∈ PackedGramMmadCubeStage.taskOps mode true tail reuse slotId := by
  simp [PackedGramMmadCubeStage.taskOps]

/-- The AIC commits the tile of every chunk in range. -/
theorem commit_of_inRange (mode : KMode) (hg : g < L.groups) (hr : r < L.count g)
    (hin : offsets.InRange L.tiling.t (L.place g r).1) :
    .commitWorkspace (slotIdOf (i32 r)).toNat ∈
      PackedGramMmadCubeStage.roundOps mode L.tiling offsets g r := by
  have hvalid : PackedGramMmadCubeStage.isValidChunk mode L.tiling.t offsets (L.place g r).1 =
      true := by
    rw [isValidChunk_eq]
    exact (ChunkOffsets.validChunk_iff hin.not_wraps).mpr hin
  simp only [PackedGramMmadCubeStage.roundOps, aicRound_place hg hr, PackedGramMmadCubeStage.task,
    hvalid]
  exact commit_mem_taskOps mode _ _ _

/-- The heads of a lane are heads of the tensor. -/
theorem laneHeads_le {kv : ℕ} (hrep : 1 ≤ L.tiling.numRepeat) (hlane : lane < 2)
    (hkv : kv < L.kvHeads) :
    0 ≤ kv * L.tiling.numRepeat + laneFirst L.tiling.numRepeat lane ∧
      kv * L.tiling.numRepeat + laneLast L.tiling.numRepeat lane ≤
        L.tiling.hg * L.tiling.numRepeat := by
  obtain ⟨h0, -, hle⟩ := lane_heads hrep hlane
  have hpos : (0 : ℤ) ≤ kv * L.tiling.numRepeat := mul_nonneg (by omega) (by omega)
  have hnext : ((kv : ℤ) + 1) * L.tiling.numRepeat ≤ L.tiling.hg * L.tiling.numRepeat := by
    rw [L.hg_eq]
    exact mul_le_mul_of_nonneg_right (by exact_mod_cast hkv) (by omega)
  rw [Int.add_mul, Int.one_mul] at hnext
  omega

/-- Only prefetches read gate and beta. -/
theorem gateReads_of_copies {ops : List LaneOp} {heads t : ℤ}
    (h : ∀ id firstHeadId start chunkLen batchHeads,
      .copyGateOrBeta id firstHeadId start chunkLen batchHeads ∈ ops →
      ∀ a ∈ (LaneOp.copyGateOrBeta id firstHeadId start chunkLen batchHeads).gateReads t,
        0 ≤ a ∧ a < heads * t) :
    ∀ op ∈ ops, ∀ a ∈ op.gateReads t, 0 ≤ a ∧ a < heads * t := by
  intro op hop
  cases op
  case copyGateOrBeta id firstHeadId start chunkLen batchHeads => exact h _ _ _ _ _ hop
  all_goals
    intro a ha
    cases ha

section Round

variable (hrep : 1 ≤ L.tiling.numRepeat) (hg : g < L.groups) (hlane : lane < 2)

include hrep hlane in
/-- The prefetches of a task with the lane's share of a chunk in range. -/
theorem copies_inside {task : PipelineTask} {c kv : ℕ} (hkv : kv < L.kvHeads)
    (h : task.Shares L.tiling offsets lane c kv) :
    ∀ op ∈ task.ops L.tiling g, ∀ a ∈ op.gateReads L.tiling.t,
      0 ≤ a ∧ a < L.tiling.hg * L.tiling.numRepeat * L.tiling.t := by
  have hlt := h.firstRepeat_lt hrep hlane
  obtain ⟨hfirst, hlast⟩ := laneHeads_le hrep hlane hkv
  refine gateReads_of_copies ?_
  intro id firstHeadId start chunkLen batchHeads hmem
  obtain ⟨-, b, hb, rfl, rfl, rfl, rfl⟩ := PipelineTask.copy_of_mem_ops (fun _ => hlt) hmem
  have hcases := PipelineTask.batchHeads_repeatEnd hlt hb
  have hbatch : task.firstRepeat ≤ task.batchRepeat b := by
    rw [PipelineTask.batchRepeat, GATE_HEAD_BATCH]
    omega
  have hstart := h.inRange.nonneg
  have hpos := h.inRange.start_lt
  have hend := h.inRange.end_le
  have hlen := h.inRange.len_le
  have hhead : task.firstHead L.tiling = kv * L.tiling.numRepeat := by
    rw [PipelineTask.firstHead, h.kvHeadId]
  have h1 := h.firstRepeat
  have h2 := h.repeatEnd
  have h3 := h.start
  have h4 := h.chunkLen
  exact gateReads_inside id (by omega) (by omega) (by omega) (by omega) (by omega) (by omega)

include hrep hg hlane in
/-- **A single round.** -/
theorem single_guarded (mode : KMode) (hw : ∀ c < L.chunks, ¬ offsets.Wraps c)
    (hr : r < L.count g) (reuse : Bool) : L.RoundGuarded offsets mode g r
      ((pipelineTask L.tiling offsets (L.task g r : ℕ) lane (i32 r) reuse).ops L.tiling g) := by
  obtain ⟨hc, hkv⟩ := task_tdiv_tmod hg hr
  obtain ⟨hclt, hkvlt⟩ := L.place_lt hg hr
  by_cases hin : offsets.InRange L.tiling.t (L.place g r).1
  · have hshares : (pipelineTask L.tiling offsets (L.task g r : ℕ) lane (i32 r) reuse).Shares
        L.tiling offsets lane _ _ := pipelineTask_shares hrep hlane hc hkv hin
    refine ⟨copies_inside hrep hlane hkvlt hshares, ?_⟩
    intro groupId slotId chunkLen rowStart rowCount hmem
    have hprotocol := List.mem_filter.mpr ⟨hmem, (rfl : LaneOp.isProtocol _ = true)⟩
    rw [PipelineTask.ops_protocol _ _ _ fun _ => hshares.firstRepeat_lt hrep hlane] at hprotocol
    obtain ⟨hgroup, hslot, -⟩ := copy_of_mem_protocolOps hprotocol
    refine ⟨hgroup, ?_⟩
    rw [hslot, pipelineTask_slotId]
    exact commit_of_inRange mode hg hr hin
  · -- without work the lane only answers the messages
    have hidle : (pipelineTask L.tiling offsets (L.task g r : ℕ) lane (i32 r) reuse).hasWork =
        false := pipelineTask_idle hc (hw _ hclt) hin
    constructor
    · refine gateReads_of_copies ?_
      intro id firstHeadId start chunkLen batchHeads hmem
      have hwork := (PipelineTask.copy_of_mem_ops (by rw [hidle]; simp) hmem).1
      rw [hidle] at hwork
      cases hwork
    · intro groupId slotId chunkLen rowStart rowCount hmem
      have hprotocol := List.mem_filter.mpr ⟨hmem, (rfl : LaneOp.isProtocol _ = true)⟩
      rw [PipelineTask.ops_protocol _ _ _ (by rw [hidle]; simp), PipelineTask.kktCopy,
        hidle] at hprotocol
      cases (copy_of_mem_protocolOps hprotocol).2.2

include hrep hlane in
/-- The prefetches of a fused pair for one of its chunks. -/
theorem pairCopies_inside {pair : ChunkPair} {kv c slotId out0 out1 : ℕ} {start : ℤ} {reuse : Bool}
    (hkv : kv < L.kvHeads) (hthree : L.tiling.numRepeat = 3)
    (hheads : pair.firstHeadId = (kv * 3 + lane : ℕ) ∧ pair.kHeadCount = lane + 1)
    (hin : offsets.InRange L.tiling.t c)
    (hlen : offsets.getValue (c + 1) - offsets.getValue c = 64)
    (hstart : start = offsets.getValue c) :
    ∀ op ∈ pair.chunkOps g start slotId reuse out0 out1,
      ∀ a ∈ op.gateReads L.tiling.t,
        0 ≤ a ∧ a < L.tiling.hg * L.tiling.numRepeat * L.tiling.t := by
  obtain ⟨h0, hlast⟩ := laneHeads_le hrep hlane hkv
  obtain ⟨hfirst, hend⟩ := laneFirst_three hthree hlane
  have hnonneg := hin.nonneg
  have hle := hin.end_le
  rw [hend, hthree] at hlast
  refine gateReads_of_copies ?_
  intro id firstHeadId start chunkLen batchHeads hmem
  obtain ⟨rfl, rfl, rfl, rfl⟩ := ChunkPair.copy_of_mem_chunkOps hmem
  rw [hheads.1, hheads.2, hthree]
  exact gateReads_inside id (by omega) (by omega) (by omega) (by omega) (by omega) (by omega)

theorem firstSlotId_eq (offsets : ChunkOffsets) (kPair : Bool)
    (firstChunkId firstHeadId localRound localTaskCount : ℤ) :
    (adjacentFullChunk offsets kPair firstChunkId firstHeadId localRound localTaskCount).firstSlotId
      = (slotIdOf localRound).toNat := rfl

theorem secondSlotId_eq (offsets : ChunkOffsets) (kPair : Bool)
    (firstChunkId firstHeadId localRound localTaskCount : ℤ) :
    (adjacentFullChunk offsets kPair firstChunkId firstHeadId localRound
      localTaskCount).secondSlotId = (slotIdOf (i32 (localRound + 1))).toNat := rfl

include hrep hg hlane in
/-- **Both rounds of a fused pair.** -/
theorem pair_guarded (mode : KMode) (hw : ∀ c < L.chunks, ¬ offsets.Wraps c)
    (hr : r + 1 < L.count g) (hthree : L.tiling.numRepeat = 3)
    (hplace : L.place g (r + 1) = ((L.place g r).1 + 1, (L.place g r).2))
    (hfuse : canFuseAdjacentFullChunks L.tiling.t offsets (L.place g r).1 = true)
    (localTaskCount : ℤ) :
    let pair := adjacentFullChunk offsets (lane == 1) (L.place g r).1
      ((L.place g r).2 * 3 + lane : ℕ) (i32 r) localTaskCount
    L.RoundGuarded offsets mode g r (pair.firstOps g) ∧
      L.RoundGuarded offsets mode g (r + 1) (pair.secondOps L.tiling.t g) := by
  intro pair
  obtain ⟨hin, hin', hlen, hlen'⟩ := inRange_of_fuse hg hr hw hplace hfuse
  have hkv := (L.place_lt hg (by omega : r < L.count g)).2
  have hmid : (((L.place g r).1 + 1 : ℕ) : ℤ) = (L.place g r).1 + 1 := by push_cast; rfl
  have hheads : pair.firstHeadId = ((L.place g r).2 * 3 + lane : ℕ) ∧
      pair.kHeadCount = lane + 1 := by
    obtain rfl | rfl : lane = 0 ∨ lane = 1 := by omega
    · exact ⟨rfl, rfl⟩
    · exact ⟨rfl, rfl⟩
  refine ⟨⟨?_, ?_⟩, ⟨?_, ?_⟩⟩
  · intro op hop
    simp only [ChunkPair.firstOps, List.cons_append, List.nil_append, List.mem_cons] at hop
    rcases hop with rfl | rfl | hop
    · simp [LaneOp.gateReads]
    · simp [LaneOp.gateReads]
    · exact pairCopies_inside hrep hlane hkv hthree hheads hin hlen rfl op hop
  · intro groupId slotId chunkLen rowStart rowCount hmem
    have hprotocol := List.mem_filter.mpr ⟨hmem, (rfl : LaneOp.isProtocol _ = true)⟩
    rw [ChunkPair.firstOps_protocol] at hprotocol
    obtain ⟨hgroup, hslot, -⟩ := copy_of_mem_protocolOps hprotocol
    refine ⟨hgroup, ?_⟩
    rw [hslot, firstSlotId_eq]
    exact commit_of_inRange mode hg (by omega) hin
  · intro op hop
    simp only [ChunkPair.secondOps, List.mem_append, List.mem_cons, List.not_mem_nil,
      or_false] at hop
    rcases hop with hop | rfl | rfl
    · have hnext : ((L.place g r).1 : ℤ) + 1 + 1 = (L.place g r).1 + 2 := by ring
      refine pairCopies_inside hrep hlane hkv hthree hheads hin' ?_ ?_ op hop
      · rw [hmid, hnext]
        exact hlen'
      · rw [hmid]
        rfl
    · simp [LaneOp.gateReads]
    · simp [LaneOp.gateReads]
  · intro groupId slotId chunkLen rowStart rowCount hmem
    have hprotocol := List.mem_filter.mpr ⟨hmem, (rfl : LaneOp.isProtocol _ = true)⟩
    rw [ChunkPair.secondOps_protocol] at hprotocol
    obtain ⟨hgroup, hslot, -⟩ := copy_of_mem_protocolOps hprotocol
    refine ⟨hgroup, ?_⟩
    have hnext : i32 (i32 r + 1) = i32 ((r + 1 : ℕ) : ℤ) := i32_advance r 1
    rw [hslot, secondSlotId_eq, hnext]
    refine commit_of_inRange mode hg hr ?_
    rw [hplace]
    exact hin'

include hrep hg hlane in
/-- **Every round of a lane is guarded**, from any round on. -/
theorem Trail.guarded (mode : KMode) {reuse : ℕ → Bool} {calls : List LaneCall}
    (hw : ∀ c < L.chunks, ¬ offsets.Wraps c) (h : L.Trail offsets reuse g lane r calls) :
    List.Forall₂ (L.RoundGuarded offsets mode g) (List.range' r (L.count g - r))
      (laneParts L.tiling g (calls.flatMap (LaneCall.items L.tiling offsets))) := by
  induction h with
  | done =>
      rw [Nat.sub_self]
      exact List.Forall₂.nil
  | test h0 hc rest ih => exact ih
  | @single r calls hr rest ih =>
      have hlen : L.count g - r = (L.count g - (r + 1)) + 1 := by omega
      rw [hlen, List.range'_succ]
      exact List.Forall₂.cons (single_guarded hrep hg hlane mode hw hr _) ih
  | @pair r calls hr hthree hplace hfuse rest ih =>
      have hlen : L.count g - r = (L.count g - (r + 2)) + 1 + 1 := by omega
      obtain ⟨hfirst, hsecond⟩ :=
        pair_guarded hrep hg hlane mode hw hr hthree hplace hfuse (L.count g)
      rw [hlen, List.range'_succ, List.range'_succ]
      exact List.Forall₂.cons hfirst (List.Forall₂.cons hsecond ih)

include hrep hg hlane in
/-- Every record of a lane is a batch of chunks in range. -/
theorem Trail.batches {reuse : ℕ → Bool} {calls : List LaneCall}
    (hw : ∀ c < L.chunks, ¬ offsets.Wraps c) (h : L.Trail offsets reuse g lane r calls) :
    ∀ output ∈ (calls.flatMap (LaneCall.items L.tiling offsets)).flatMap
        (LaneItem.records L.tiling),
      ∃ c kv b n, kv < L.kvHeads ∧ WritesBatch L.tiling offsets lane c kv b n output := by
  induction h with
  | done => simp
  | test h0 hc rest ih => simpa [LaneCall.items] using ih
  | @single r calls hr rest ih =>
      intro output hout
      rw [List.flatMap_cons, List.flatMap_append, List.mem_append] at hout
      cases hout with
      | inl hout =>
          rw [LaneCall.items, List.flatMap_singleton] at hout
          obtain ⟨b, hb⟩ := (single_share hrep hg hlane hr hw _ _).batch output hout
          exact ⟨_, _, b, 1, (L.place_lt hg hr).2, hb⟩
      | inr hout => exact ih output hout
  | @pair r calls hr hthree hplace hfuse rest ih =>
      intro output hout
      rw [List.flatMap_cons, List.flatMap_append, List.mem_append] at hout
      cases hout with
      | inl hout =>
          rw [LaneCall.items, List.flatMap_singleton] at hout
          obtain ⟨b, hb⟩ := (pair_share hg hlane hr hw hthree hplace hfuse _ _).batch output hout
          exact ⟨_, _, b, 2, (L.place_lt hg (by omega : r < L.count g)).2, hb⟩
      | inr hout => exact ih output hout

end Round

/-! ## The launch -/

/-- What the guards promise for one lane's calls: its rounds are guarded, and whatever its
stream has written at the end is inside the output. -/
structure LaneGuarded (L : Launch) (offsets : ChunkOffsets) (mode : KMode) (g lane : ℕ)
    (calls : List LaneCall) : Prop where
  run : ∀ fuel : ℕ, L.tiling.taskCount g < fuel →
    process L.tiling offsets (2 * g + lane : ℕ) fuel = some calls
  rounds : List.Forall₂ (L.RoundGuarded offsets mode g) (List.range (L.count g))
    (laneParts L.tiling g (calls.flatMap (LaneCall.items L.tiling offsets)))
  writes : ∀ (env : OutputEnv) (final : OutputStream),
    runStream env (laneOps L.tiling g (calls.flatMap (LaneCall.items L.tiling offsets))) .init =
      .ok final →
    ∀ a ∈ final.writes L.tiling.t, 0 ≤ a ∧ a < L.tiling.hg * L.tiling.numRepeat * L.tiling.t * 64

/-- What the guards promise for a launch. -/
structure Guarded (L : Launch) (offsets : ChunkOffsets) (mode : KMode) : Prop where
  /-- The AIC's and the lanes' tests are sound over the integers. -/
  aic : ∀ c < L.chunks, PackedGramMmadCubeStage.isValidChunk mode L.tiling.t offsets c = true →
    offsets.InRange L.tiling.t c
  aiv : ∀ c < L.chunks, VectorStage.validChunk L.tiling.t offsets c = true →
    offsets.InRange L.tiling.t c
  /-- Two chunks are fused only when the AIC takes both and both have 64 tokens. -/
  fuse : ∀ c : ℕ, c + 1 < L.chunks →
    canFuseAdjacentFullChunks L.tiling.t offsets c = true →
    PackedGramMmadCubeStage.isValidChunk mode L.tiling.t offsets c = true ∧
      PackedGramMmadCubeStage.isValidChunk mode L.tiling.t offsets (c + 1) = true ∧
      offsets.getValue (c + 1) - offsets.getValue c = 64 ∧
      offsets.getValue (c + 2) - offsets.getValue (c + 1) = 64
  kReads : ∀ g < L.groups, ∀ r < L.count g,
    ∀ op ∈ PackedGramMmadCubeStage.roundOps mode L.tiling offsets g r,
    ∀ a ∈ PackedGramMmadCubeStage.kReads mode L.tiling.hg (PackedGramMmadCubeStage.task mode
        L.tiling offsets (PackedGramMmadCubeStage.round L.tiling g r)) op,
      0 ≤ a ∧ a < L.tiling.t * L.tiling.hg * mode.kDim
  lanes : ∀ g < L.groups, ∀ lane < 2, ∃ calls, L.LaneGuarded offsets mode g lane calls

/-- The packed copy is a command of a valid chunk. -/
theorem valid_of_mem_taskOps {valid tail reuse : Bool} {slotId : ℕ}
    (h : .copyOnePackedOperand ∈ PackedGramMmadCubeStage.taskOps mode valid tail reuse slotId) :
    valid = true := by
  cases valid with
  | true => rfl
  | false =>
      cases mode <;> cases reuse <;>
        simp [PackedGramMmadCubeStage.taskOps, PackedGramMmadCubeStage.initL0Events,
          PackedGramMmadCubeStage.drainL0Events, PackedGramMmadCubeStageK128.initL0Events,
          PackedGramMmadCubeStageK128.drainL0Events] at h

/-- **Every read of K for a processed chunk** is inside the tensor. -/
theorem kReads_guarded (hw : ∀ c < L.chunks, ¬ offsets.Wraps c) (hg : g < L.groups)
    (hr : r < L.count g) :
    ∀ op ∈ PackedGramMmadCubeStage.roundOps mode L.tiling offsets g r,
    ∀ a ∈ PackedGramMmadCubeStage.kReads mode L.tiling.hg (PackedGramMmadCubeStage.task mode
        L.tiling offsets (PackedGramMmadCubeStage.round L.tiling g r)) op,
      0 ≤ a ∧ a < L.tiling.t * L.tiling.hg * mode.kDim := by
  obtain ⟨hc, hkv⟩ := L.place_lt hg hr
  intro op hop
  by_cases hcopy : op = .copyOnePackedOperand
  · subst hcopy
    have hvalid := valid_of_mem_taskOps hop
    rw [aicRound_place hg hr] at hvalid ⊢
    simp only [PackedGramMmadCubeStage.task, isValidChunk_eq] at hvalid
    have hin := (ChunkOffsets.validChunk_iff (hw _ hc)).mp hvalid
    have hlen := hin.chunkLen_eq
    have hstart := hin.start_lt
    have hend := hin.end_le
    have hle := hin.len_le
    have hkv0 : 0 ≤ ((L.place g r).2 : ℤ) := by omega
    have hkvlt : ((L.place g r).2 : ℤ) < L.tiling.hg := by
      rw [L.hg_eq]
      exact_mod_cast hkv
    have hsum : offsets.getValue (L.place g r).1 + offsets.chunkLen (L.place g r).1 ≤
        L.tiling.t := by omega
    have hfit : 0 < offsets.chunkLen (L.place g r).1 ∧ offsets.chunkLen (L.place g r).1 ≤ 64 := by
      omega
    exact PackedGramMmadCubeStage.kReads_inside (PackedGramMmadCubeStage.task mode L.tiling offsets
      ⟨i32 r, slotIdOf (i32 r), (L.place g r).1, (L.place g r).2⟩) hin.nonneg hsum hfit hkv0 hkvlt
      rfl _
  · intro a ha
    cases op
    case copyOnePackedOperand => exact absurd rfl hcopy
    all_goals cases ha

/-- **Arrays without a wrapping length are guarded.** -/
theorem guarded_of_not_wraps (mode : KMode) (hrep : 1 ≤ L.tiling.numRepeat)
    (hw : ∀ c < L.chunks, ¬ offsets.Wraps c) : L.Guarded offsets mode := by
  constructor
  · intro c hc h
    rw [isValidChunk_eq] at h
    exact (ChunkOffsets.validChunk_iff (hw c hc)).mp h
  · intro c hc h
    exact (ChunkOffsets.validChunk_iff (hw c hc)).mp h
  · intro c hc h
    have hw' : ¬ offsets.Wraps (c + 1 : ℤ) := by
      have := hw (c + 1) hc
      rwa [Nat.cast_succ] at this
    obtain ⟨hin, hin', hlen, hlen'⟩ :=
      (ChunkOffsets.canFuseAdjacentFullChunks_iff (hw c (by omega)) hw').mp h
    rw [isValidChunk_eq, isValidChunk_eq]
    exact ⟨(ChunkOffsets.validChunk_iff hin.not_wraps).mpr hin,
      (ChunkOffsets.validChunk_iff hin'.not_wraps).mpr hin', hlen, hlen'⟩
  · intro g hg r hr
    exact kReads_guarded hw hg hr
  · intro g hg lane hlane
    obtain ⟨calls, hrun, htrail⟩ := L.process_trail offsets hg hlane
    refine ⟨calls, ?_, ?_, ?_⟩
    · intro fuel hfuel
      rw [L.taskCount_eq] at hfuel
      exact hrun fuel (by exact_mod_cast hfuel)
    · have := htrail.guarded hrep hg hlane mode hw
      rwa [Nat.sub_zero, ← List.range_eq_range'] at this
    · intro env final hfinal a ha
      obtain ⟨-, -, -, -, final', -, -, hfinal', htracks⟩ :=
        laneOps_tracks env L.tiling g (calls.flatMap (LaneCall.items L.tiling offsets))
      obtain rfl : final = final' := Except.ok.inj (hfinal.symm.trans hfinal')
      rw [OutputStream.writes, htracks.settled.launchedOutputs_eq] at ha
      obtain ⟨output, hout, ha⟩ := List.mem_flatMap.mp ha
      obtain ⟨c, kv, b, n, hkv, hwrites⟩ := htrail.batches hrep hg hlane hw output hout
      obtain ⟨i, hi, head, token, col, hcol, howns, rfl⟩ := (hwrites.mem_iff a).mp ha
      exact elementOffset_lt (head_lt hrep hlane hkv howns)
        ⟨howns.token_nonneg, howns.token_lt⟩ hcol

end Launch

/-- **The guards hold exactly when no length wraps.**  For every launch of an accepted shape
and every array of 32-bit offsets, what the tests let through is safe for the whole
launch if and only if no chunk starts `2^32 - 64` or more after its end. -/
theorem guarded_iff (L : Launch) (offsets : ChunkOffsets) (mode : KMode) (ht : 0 < L.tiling.t)
    (hrep : 1 ≤ L.tiling.numRepeat) :
    L.Guarded offsets mode ↔ ∀ c < L.chunks, ¬ offsets.Wraps c := by
  constructor
  · intro h c hc hw
    -- the wrapped chunk passes the test and is not in range
    have hvalid := ChunkOffsets.validChunk_of_wraps ht.le hw
    exact (h.aiv c hc hvalid).not_wraps hw
  · exact Launch.guarded_of_not_wraps mode hrep

theorem guarded_iff_sample : sampleLaunch.Guarded ChunkOffsets.full .k128 ↔
    ∀ c < sampleLaunch.chunks, ¬ ChunkOffsets.full.Wraps c :=
  guarded_iff sampleLaunch ChunkOffsets.full .k128 (by decide) (by decide)

/-- One chunk from the largest 32-bit value to the smallest. -/
def ChunkOffsets.wrapped : ChunkOffsets where
  getValue c := if c = 0 then 2147483647 else -2147483648
  le_getValue c := by split <;> omega
  getValue_lt c := by split <;> omega

/-- One chunk of one head on one group. -/
def oneChunkLaunch : Launch where
  tiling := ⟨1, 64, 1, 1, 1⟩
  chunks := 1
  kvHeads := 1
  groups := 1
  chunks_pos := Nat.one_pos
  kvHeads_pos := Nat.one_pos
  groups_pos := Nat.one_pos
  total_eq := rfl
  hg_eq := rfl
  blockDim_eq := rfl

/-- The wrapped chunk has length 1 for every test, and starts far behind the tensors. -/
theorem not_guarded_always : ¬ ∀ (L : Launch) (offsets : ChunkOffsets) (mode : KMode),
    0 < L.tiling.t → 1 ≤ L.tiling.numRepeat → L.Guarded offsets mode := by
  intro h
  have hguarded := h oneChunkLaunch ChunkOffsets.wrapped .k128 (by decide) (by decide)
  have hvalid : VectorStage.validChunk oneChunkLaunch.tiling.t ChunkOffsets.wrapped (0 : ℕ) =
      true := by decide
  exact absurd (hguarded.aiv 0 (by decide) hvalid).start_lt (by decide)

end ChunkScaledDotKkt
