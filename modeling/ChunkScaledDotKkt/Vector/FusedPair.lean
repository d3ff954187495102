import ChunkScaledDotKkt.Vector.FullChunk
import ChunkScaledDotKkt.Vector.Protocol

/-!
# A fused pair and two single tasks

For a repeat of 3 a lane may run two adjacent full chunks as one batch: one output
tensor with both chunks of each head side by side, one KKT tensor for both tiles, and
one copy-out.

## Main results

* `fused_pair` — the output memory, the flags and the queue operations are those of two
  single tasks.
-/

namespace ChunkScaledDotKkt

open MachineInt VectorStage BlockCopy

variable {F : Type} [CommRing F] [LinearOrder F]

/-! ## The output tensor of a batch -/

section

variable {env : LaneEnv F} {stale : ℕ → ℕ → F} {s : LaneMachine F}

theorem fullInputs_plain (groupId slotId : ℕ) (firstHeadId start : ℤ) (heads : ℕ) :
    (∀ op ∈ fullInputs groupId slotId firstHeadId start heads, op.isPlain = true) ∧
      .launchReadyOutput ∉ fullInputs groupId slotId firstHeadId start heads := by
  simp [fullInputs, prefetchGateAndBetaBatch, beginLoadKktSlot, LaneOp.isPlain]

theorem fullBatch_plain (kPair : Bool) (slotId : ℕ) (reuse : Bool) (out0 out1 : ℕ) :
    (∀ op ∈ fullBatch kPair slotId reuse out0 out1, op.isPlain = true) ∧
      .launchReadyOutput ∈ fullBatch kPair slotId reuse out0 out1 := by
  cases kPair <;> cases reuse <;>
    simp [fullBatch, prepareHeadFactor, prepareHeadPairFactor, completeKktLoadAndReleaseSlot,
      LaneOp.isPlain]

/-- The loads of a batch leave the output port alone. -/
theorem fullInputs_run (groupId slotId : ℕ) (firstHeadId start : ℤ) (heads : ℕ) :
    runMachine env stale (fullInputs groupId slotId firstHeadId start heads) s =
      { s with mem := runLane env (fullInputs groupId slotId firstHeadId start heads) s.mem } := by
  have hplain := fullInputs_plain groupId slotId firstHeadId start heads
  rw [runMachine_plain hplain.1, if_neg hplain.2]

/-- The factor stage launches the output of the batch before. -/
theorem fullBatch_run (kPair : Bool) (slotId : ℕ) (reuse : Bool) (out0 out1 : ℕ) :
    runMachine env stale (fullBatch kPair slotId reuse out0 out1) s =
      ⟨runLane env (fullBatch kPair slotId reuse out0 out1) s.mem, s.port.launch env.t,
        s.allocs⟩ := by
  have hplain := fullBatch_plain kPair slotId reuse out0 out1
  rw [runMachine_plain hplain.1, if_pos hplain.2]

theorem freeBatch_run : runMachine env stale freeBatch s = s := rfl

end

namespace FullBatch

variable (b : FullBatch F) (stale : ℕ → ℕ → F)

/-- The commands of a single task on the batch. -/
def taskOps (reuse : Bool) (record : OutputRecord) : List LaneOp :=
  fullInputs b.groupId b.slotId b.firstHeadId b.start b.heads ++
  ([.acquireOutputSlot, .allocOutput] ++ (fullBatch b.kPair b.slotId reuse 0 4096 ++
  ([.enQueOutput, .queueOutput record] ++ freeBatch)))

/-- One chunk of a fused pair. -/
def chunkOps (reuse : Bool) (out0 out1 : ℕ) : List LaneOp :=
  fullInputs b.groupId b.slotId b.firstHeadId b.start b.heads ++
  (fullBatch b.kPair b.slotId reuse out0 out1 ++ freeBatch)

/-- **A single task** launches what was ready and leaves its tiles, one head after the other. -/
theorem taskOps_run (reuse : Bool) (record : OutputRecord) (s : LaneMachine F) :
    ∃ mem output allocs, runMachine b.env stale (b.taskOps reuse record) s =
        ⟨mem, ⟨some output, some record, (s.port.launch b.env.t).gm⟩, allocs⟩ ∧
      ∀ h < b.heads, ∀ a < 4096, output (h * 4096 + a) = b.result h a := by
  let m0 := runLane b.env (fullInputs b.groupId b.slotId b.firstHeadId b.start b.heads) s.mem
  let m1 := m0.allocOutput (stale s.allocs)
  let m2 := runLane b.env (fullBatch b.kPair b.slotId reuse 0 4096) m1
  refine ⟨m2, m2.f32 .output, s.allocs + 1, ?_, ?_⟩
  · simp only [taskOps, runMachine_append, fullInputs_run, fullBatch_run, freeBatch_run]
    simp [LaneOp.machine, LaneOp.act, m0, m1, m2]
  · intro h hh a ha
    have hcases : h = 0 ∨ h = 1 := by
      have hle : b.heads ≤ 2 := by
        rw [heads]
        split <;> omega
      omega
    -- the inputs do not lie in the output tensor
    have hin : (laneLogic b.env).Sat (b.tile h (if h = 0 then 0 else 4096)).inputs m1 := by
      have hinputs := b.inputs_triple hh (if h = 0 then 0 else 4096) s.mem (by simp)
      simp only [HeadTile.inputs, FactLogic.sat_cons] at hinputs ⊢
      exact ⟨LaneMemory.allocOutput_holds hinputs.1 UbBuf.noConfusion,
        LaneMemory.allocOutput_holds hinputs.2.1 UbBuf.noConfusion,
        LaneMemory.allocOutput_holds hinputs.2.2.1 UbBuf.noConfusion, by simp⟩
    have hres := b.fullBatch_triple hh (Or.inl (Nat.le_refl 4096)) reuse m1 hin _
      (List.mem_singleton_self _) a ha
    cases hcases with
    | inl h0 => subst h0; exact hres
    | inr h1 => subst h1; exact hres

/-- **A chunk of a fused pair** leaves its tiles where it is told to. -/
theorem chunkOps_run (reuse : Bool) {out0 out1 : ℕ}
    (hout : out0 + 4096 ≤ out1 ∨ out1 + 4096 ≤ out0) (s : LaneMachine F) :
    ∃ mem, runMachine b.env stale (b.chunkOps reuse out0 out1) s =
        ⟨mem, s.port.launch b.env.t, s.allocs⟩ ∧
      (∀ h < b.heads, ∀ a < 4096,
        mem.f32 .output ((if h = 0 then out0 else out1) + a) = b.result h a) ∧
      ∀ out, (out0 + 4096 ≤ out ∨ out + 4096 ≤ out0) → (out1 + 4096 ≤ out ∨ out + 4096 ≤ out1) →
        ∀ a < 4096, mem.f32 .output (out + a) = s.mem.f32 .output (out + a) := by
  let ops := fullInputs b.groupId b.slotId b.firstHeadId b.start b.heads ++
    fullBatch b.kPair b.slotId reuse out0 out1
  have hmem : runLane b.env ops s.mem = runLane b.env (fullBatch b.kPair b.slotId reuse out0 out1)
      (runLane b.env (fullInputs b.groupId b.slotId b.firstHeadId b.start b.heads) s.mem) :=
    List.foldl_append
  refine ⟨runLane b.env ops s.mem, ?_, ?_, ?_⟩
  · rw [chunkOps, runMachine_append, runMachine_append, fullInputs_run, fullBatch_run,
      freeBatch_run, hmem]
  · intro h hh a ha
    have htriple := (b.inputs_triple hh (if h = 0 then out0 else out1)).append
      (b.fullBatch_triple hh hout reuse)
    exact htriple s.mem (by simp) _ (List.mem_singleton_self _) a ha
  · intro out h0 h1 a ha
    let val : ℕ → F := fun x => s.mem.f32 .output (out + x)
    have hkeep : (laneLogic b.env).Triple [.tensor ⟨.output, out⟩ 4096 val] ops
        [.tensor ⟨.output, out⟩ 4096 val] := b.fullBatch_keeps reuse h0 h1
    refine hkeep s.mem ?_ _ (List.mem_singleton_self _) a ha
    intro fact hfact
    rw [List.mem_singleton.mp hfact]
    exact fun _ _ => rfl

end FullBatch

/-! ## The commands of both paths -/

section

variable {tiling : ChunkScaledDotKktTilingData} {offsets : ChunkOffsets}
  {kvHeadId chunkId aivLane : ℤ}

/-- The scalars of a lane's task on a full chunk, for a repeat of 3. -/
theorem pipelineTask_full (hR : tiling.numRepeat = 3) (hkv : 0 ≤ kvHeadId ∧ kvHeadId < tiling.hg)
    (hchunk : 0 ≤ chunkId) (hlane : aivLane = 0 ∨ aivLane = 1)
    (hvalid : validChunk tiling.t offsets chunkId = true) (hlen : offsets.chunkLen chunkId = 64)
    (localRound : ℤ) (reuse : Bool) :
    pipelineTask tiling offsets (chunkId * tiling.hg + kvHeadId) aivLane localRound reuse =
      { slotId := (slotIdOf localRound).toNat, kvHeadId, start := offsets.getValue chunkId,
        chunkLen := 64, rowStart := 0, rowCount := 64, firstRepeat := aivLane,
        repeatEnd := 2 * aivLane + 1, hasWork := true, willReuseSlot := reuse } := by
  have hpos : 0 ≤ chunkId * tiling.hg + kvHeadId :=
    add_nonneg (mul_nonneg hchunk (by omega)) hkv.1
  have hmod : (chunkId * tiling.hg + kvHeadId).tmod tiling.hg = kvHeadId := by
    rw [Int.tmod_eq_emod_of_nonneg hpos, Int.add_comm, Int.add_mul_emod_self_right,
      Int.emod_eq_of_lt hkv.1 hkv.2]
  have hdiv : (chunkId * tiling.hg + kvHeadId).tdiv tiling.hg = chunkId := by
    rw [Int.tdiv_eq_ediv_of_nonneg hpos, Int.add_comm, Int.add_mul_ediv_right _ _ (by omega),
      Int.ediv_eq_zero_of_lt hkv.1 hkv.2, Int.zero_add]
  have hsplit : (3 : ℤ) ≥ AIVS_PER_AIC := by decide
  have hfirst : (aivLane * 3).tdiv AIVS_PER_AIC = aivLane := by
    cases hlane with
    | inl h0 => subst h0; rfl
    | inr h1 => subst h1; rfl
  have hend : ((aivLane + 1) * 3).tdiv AIVS_PER_AIC = 2 * aivLane + 1 := by
    cases hlane with
    | inl h0 => subst h0; rfl
    | inr h1 => subst h1; rfl
  have hwork : aivLane < 2 * aivLane + 1 := by omega
  simp [pipelineTask, hmod, hdiv, hvalid, hlen, hR, hsplit, hfirst, hend, hwork]

/-- Two chunks that the fuse test accepts are full, adjacent and valid. -/
theorem full_of_canFuse {t : ℤ} (h : canFuseAdjacentFullChunks t offsets chunkId = true)
    (hmono : offsets.getValue chunkId ≤ offsets.getValue (chunkId + 1) ∧
      offsets.getValue (chunkId + 1) ≤ offsets.getValue (chunkId + 1 + 1)) :
    0 ≤ offsets.getValue chunkId ∧
      offsets.getValue (chunkId + 1) = offsets.getValue chunkId + 64 ∧
      offsets.getValue chunkId + 128 ≤ t ∧
      ∀ c, c = chunkId ∨ c = chunkId + 1 →
        validChunk t offsets c = true ∧ offsets.chunkLen c = 64 := by
  have hnext : chunkId + 2 = chunkId + 1 + 1 := by omega
  have h0 := offsets.getValue_lt chunkId
  have h1 := offsets.getValue_lt (chunkId + 1)
  have h2 := offsets.getValue_lt (chunkId + 1 + 1)
  simp only [canFuseAdjacentFullChunks, Bool.and_eq_true, decide_eq_true_eq, beq_iff_eq, hnext] at h
  obtain ⟨⟨⟨hstart, hend⟩, hfirst⟩, hsecond⟩ := h
  have hlens := hfirst
  have hlens' := hsecond
  rw [i32_eq_self (by omega) (by omega), ROW_ELEMS] at hlens hlens'
  refine ⟨hstart, by omega, by omega, ?_⟩
  intro c hc
  have hlen : offsets.chunkLen c = 64 := by
    cases hc with
    | inl hc => rw [hc]; exact hfirst
    | inr hc => rw [hc]; exact hsecond
  refine ⟨?_, hlen⟩
  simp only [validChunk, ChunkOffsets.validChunk, Bool.and_eq_true, decide_eq_true_eq, hlen, BT]
  cases hc with
  | inl hc => subst hc; omega
  | inr hc => subst hc; omega

end

/-- The batch of a full chunk that a lane works on. -/
def laneBatch (env : LaneEnv F) (groupId : ℕ) (firstHeadId start localRound : ℤ) (kPair : Bool) :
    FullBatch F :=
  ⟨env, groupId, (slotIdOf localRound).toNat, firstHeadId, start, kPair⟩

/-- The record of a lane's single task on a full chunk. -/
def fullRecord (t firstHeadId start : ℤ) (kPair : Bool) : OutputRecord :=
  if kPair then queueDelayedPairOutput t firstHeadId start (64 * ROW_ELEMS)
  else queueDelayedSingleOutput t firstHeadId start 0 64

omit [CommRing F] [LinearOrder F] in
/-- The commands of a single task of lane 1, or of lane 0. -/
theorem task_ops (env : LaneEnv F) {tiling : ChunkScaledDotKktTilingData} (groupId : ℕ)
    (hR : tiling.numRepeat = 3) (kvHeadId start localRound : ℤ) (reuse kPair : Bool) :
    (PipelineTask.mk (slotIdOf localRound).toNat kvHeadId start 64 0 64
      (if kPair then 1 else 0) (2 * (if kPair then 1 else 0) + 1) true reuse).ops tiling groupId =
    (laneBatch env groupId (kvHeadId * 3 + (if kPair then 1 else 0)) start localRound
      kPair).taskOps reuse
      (fullRecord tiling.t (kvHeadId * 3 + (if kPair then 1 else 0)) start kPair) := by
  cases kPair <;>
    simp [PipelineTask.ops, PipelineTask.prefetchBatch, PipelineTask.processHeadRange,
      PipelineTask.batchCount, PipelineTask.batchOps, PipelineTask.batchHeads,
      PipelineTask.batchRepeat, GATE_HEAD_BATCH, PipelineTask.prefetchNext,
      PipelineTask.prepareBatch, PipelineTask.finalizeBatch, ROW_ELEMS, hR,
      PipelineTask.firstHead, laneBatch, FullBatch.taskOps, FullBatch.heads, fullInputs, fullBatch,
      freeBatch, fullRecord, finalizeHeadWithKkt, finalizeHeadPairWithKkt]

omit [CommRing F] [LinearOrder F] in
/-- The commands of a fused pair. -/
theorem fused_ops (env : LaneEnv F) (t : ℤ) (offsets : ChunkOffsets) (groupId : ℕ) (kPair : Bool)
    (chunkId firstHeadId localRound localTaskCount : ℤ) :
    let chunks := adjacentFullChunk offsets kPair chunkId firstHeadId localRound localTaskCount
    let start := offsets.getValue chunkId
    let first := laneBatch env groupId firstHeadId start localRound kPair
    let second := laneBatch env groupId firstHeadId (offsets.getValue (chunkId + 1))
      (i32 (localRound + 1)) kPair
    chunks.firstOps groupId ++ chunks.secondOps t groupId =
      [.acquireOutputSlot, .allocOutput] ++
      (first.chunkOps (localRound + SLOT_COUNT < localTaskCount) 0 8192 ++
      (second.chunkOps (i32 (localRound + 1) + SLOT_COUNT < localTaskCount) 4096 12288 ++
      [.enQueOutput,
        .queueOutput (queueDelayedChunkPairOutput t firstHeadId start first.heads)])) := by
  cases kPair <;>
    simp [adjacentFullChunk, ChunkPair.firstOps, ChunkPair.secondOps, ChunkPair.chunkOps,
      ChunkPair.kHeadCount, laneBatch, FullBatch.chunkOps, FullBatch.heads, fullInputs, fullBatch,
      freeBatch]

/-! ## The output memory -/

/-- What two chunks of one or two heads leave in global memory: `value h c` is the tile of head
`h` of chunk `c`, heads are `pitch` elements apart. -/
def chunkPairMemory {R : Type} (kPair : Bool) (first pitch : ℤ) (value : ℕ → ℕ → ℕ → R)
    (gm : ℤ → R) (a : ℤ) : R :=
  if first ≤ a ∧ a < first + 4096 then value 0 0 (a - first).toNat
  else if first + 4096 ≤ a ∧ a < first + 8192 then value 0 1 (a - first - 4096).toNat
  else if kPair = true ∧ first + pitch ≤ a ∧ a < first + pitch + 4096 then
    value 1 0 (a - first - pitch).toNat
  else if kPair = true ∧ first + pitch + 4096 ≤ a ∧ a < first + pitch + 8192 then
    value 1 1 (a - first - pitch - 4096).toNat
  else gm a

section

variable {R : Type} {kPair : Bool} {first pitch : ℤ} {value : ℕ → ℕ → ℕ → R}

/-- One run of 8192 elements for each head. -/
theorem store_chunkPair (hpitch : 8192 ≤ pitch) {output : ℕ → R} (gm : ℤ → R)
    (hout : ∀ h < (if kPair then 2 else 1), ∀ c < 2, ∀ a < 4096,
      output (h * 8192 + c * 4096 + a) = value h c a) :
    store (contiguous first 0 8192 ++ if kPair then contiguous (first + pitch) 8192 8192 else [])
      output gm = chunkPairMemory kPair first pitch value gm := by
  have hat : ∀ h < (if kPair then 2 else 1), ∀ c < 2, ∀ i j, h * 8192 + c * 4096 + j = i →
      j < 4096 → output i = value h c j := by
    intro h hh c hc i j hi hj
    rw [← hi, hout h hh c hc j hj]
  funext a
  cases kPair with
  | false =>
      simp only [Bool.false_eq_true, if_false, false_and, List.append_nil, store_contiguous,
        chunkPairMemory] at hat ⊢
      split_ifs
      all_goals
        first
        | rfl
        | omega
        | exact hat _ (by omega) _ (by omega) _ _ (by omega) (by omega)
  | true =>
      simp only [if_true, true_and, store_append, store_contiguous, chunkPairMemory] at hat ⊢
      split_ifs
      all_goals
        first
        | rfl
        | omega
        | exact hat _ (by omega) _ (by omega) _ _ (by omega) (by omega)

/-- One run of 4096 elements for each head, chunk by chunk. -/
theorem store_twoTasks (hpitch : 8192 ≤ pitch) {output0 output1 : ℕ → R} (gm : ℤ → R)
    (hout0 : ∀ h < (if kPair then 2 else 1), ∀ a < 4096, output0 (h * 4096 + a) = value h 0 a)
    (hout1 : ∀ h < (if kPair then 2 else 1), ∀ a < 4096, output1 (h * 4096 + a) = value h 1 a) :
    store (contiguous (first + 4096) 0 4096 ++
        if kPair then contiguous (first + 4096 + pitch) 4096 4096 else []) output1
      (store (contiguous first 0 4096 ++
        if kPair then contiguous (first + pitch) 4096 4096 else []) output0 gm) =
      chunkPairMemory kPair first pitch value gm := by
  have hat0 : ∀ h < (if kPair then 2 else 1), ∀ i j, h * 4096 + j = i → j < 4096 →
      output0 i = value h 0 j := by
    intro h hh i j hi hj
    rw [← hi, hout0 h hh j hj]
  have hat1 : ∀ h < (if kPair then 2 else 1), ∀ i j, h * 4096 + j = i → j < 4096 →
      output1 i = value h 1 j := by
    intro h hh i j hi hj
    rw [← hi, hout1 h hh j hj]
  funext a
  cases kPair with
  | false =>
      simp only [Bool.false_eq_true, if_false, false_and, List.append_nil, store_contiguous,
        chunkPairMemory] at hat0 hat1 ⊢
      split_ifs
      all_goals
        first
        | rfl
        | omega
        | exact hat0 _ (by omega) _ _ (by omega) (by omega)
        | exact hat1 _ (by omega) _ _ (by omega) (by omega)
  | true =>
      simp only [if_true, true_and, store_append, store_contiguous, chunkPairMemory] at hat0 hat1 ⊢
      split_ifs
      all_goals
        first
        | rfl
        | omega
        | exact hat0 _ (by omega) _ _ (by omega) (by omega)
        | exact hat1 _ (by omega) _ _ (by omega) (by omega)

end

section

variable {t firstHeadId start : ℤ} {kPair : Bool}

theorem chunkPair_launchMoves :
    (queueDelayedChunkPairOutput t firstHeadId start (if kPair then 2 else 1 : ℕ)).launchMoves t =
      contiguous ((firstHeadId * t + start) * 64) 0 8192 ++
        if kPair then contiguous ((firstHeadId * t + start) * 64 + t * 64) 8192 8192 else [] := by
  have hheads : (if kPair then 2 else 1 : ℕ) = 1 ∨ (if kPair then 2 else 1 : ℕ) = 2 := by
    cases kPair <;> simp
  rw [(queueDelayedChunkPairOutput_placed t firstHeadId start hheads).plain]
  cases kPair with
  | false =>
      simp [OutputRecord.plainMoves, queueDelayedChunkPairOutput, GATE_HEAD_BATCH, ROW_ELEMS,
        OutputRecord.headElems]
  | true =>
      have hsecond : ((firstHeadId + 1) * t + start) * 64 =
          (firstHeadId * t + start) * 64 + t * 64 := by ring
      simp [OutputRecord.plainMoves, queueDelayedChunkPairOutput, GATE_HEAD_BATCH, ROW_ELEMS,
        OutputRecord.headElems, OutputRecord.secondSource, hsecond]

theorem fullRecord_launchMoves :
    (fullRecord t firstHeadId start kPair).launchMoves t =
      contiguous ((firstHeadId * t + start) * 64) 0 4096 ++
        if kPair then contiguous ((firstHeadId * t + start) * 64 + t * 64) 4096 4096 else [] := by
  have hactive : (u32 4096).toNat = 4096 := by decide
  cases kPair with
  | false =>
      have hplain := (queueDelayedSingleOutput_placed t firstHeadId start 0
        (by decide : 64 * 64 < 4294967296)).plain
      simp only [fullRecord, Bool.false_eq_true, if_false]
      refine Eq.trans hplain ?_
      simp [OutputRecord.plainMoves, queueDelayedSingleOutput, ROW_ELEMS, OutputRecord.headElems,
        hactive]
  | true =>
      have hplain := (queueDelayedPairOutput_placed t firstHeadId start
        (by decide : 64 * 64 < 4294967296)).plain
      have hsecond : ((firstHeadId + 1) * t + start) * 64 =
          (firstHeadId * t + start) * 64 + t * 64 := by ring
      simp only [fullRecord, if_true]
      refine Eq.trans hplain ?_
      simp [OutputRecord.plainMoves, queueDelayedPairOutput, ROW_ELEMS, OutputRecord.headElems,
        OutputRecord.secondSource, hactive, hsecond]

end

/-- **Both paths leave the same output**, from any state of the lane and whatever the allocated
tensors held. -/
theorem fused_output (first second : FullBatch F) (henv : second.env = first.env)
    (hpair : second.kPair = first.kPair)
    (hstart : second.start = first.start + 64) (ht : 128 ≤ first.env.t) (reuse0 reuse1 : Bool)
    (stale stale' : ℕ → ℕ → F) (s : LaneMachine F) :
    (runMachine first.env stale ([.acquireOutputSlot, .allocOutput] ++
      (first.chunkOps reuse0 0 8192 ++ (second.chunkOps reuse1 4096 12288 ++
      [.enQueOutput, .queueOutput (queueDelayedChunkPairOutput first.env.t first.firstHeadId
        first.start first.heads)])) ++ [.launchReadyOutput]) s).port.gm =
    (runMachine first.env stale'
      (first.taskOps reuse0 (fullRecord first.env.t first.firstHeadId first.start first.kPair) ++
      second.taskOps reuse1 (fullRecord first.env.t first.firstHeadId second.start first.kPair) ++
      [.launchReadyOutput]) s).port.gm := by
  have hheads : second.heads = first.heads := by rw [FullBatch.heads, FullBatch.heads, hpair]
  have hcount : first.heads = if first.kPair then 2 else 1 := rfl
  have hfirst : (first.firstHeadId * first.env.t + second.start) * 64 =
      (first.firstHeadId * first.env.t + first.start) * 64 + 4096 := by
    rw [hstart]
    ring
  let value : ℕ → ℕ → ℕ → F := fun h c a => if c = 0 then first.result h a else second.result h a
  -- the fused pair: one tensor for both chunks
  have hfused : ∃ output, (runMachine first.env stale ([.acquireOutputSlot, .allocOutput] ++
      (first.chunkOps reuse0 0 8192 ++ (second.chunkOps reuse1 4096 12288 ++
      [.enQueOutput, .queueOutput (queueDelayedChunkPairOutput first.env.t first.firstHeadId
        first.start first.heads)])) ++ [.launchReadyOutput]) s).port.gm =
      store ((queueDelayedChunkPairOutput first.env.t first.firstHeadId first.start
        (if first.kPair then 2 else 1 : ℕ)).launchMoves first.env.t) output
        (s.port.launch first.env.t).gm ∧
      ∀ h < (if first.kPair then 2 else 1), ∀ c < 2, ∀ a < 4096,
        output (h * 8192 + c * 4096 + a) = value h c a := by
    obtain ⟨m0, hrun0, hout0, -⟩ := first.chunkOps_run stale reuse0
      (Or.inl (by decide : 0 + 4096 ≤ 8192))
      ⟨s.mem.allocOutput (stale s.allocs), s.port, s.allocs + 1⟩
    obtain ⟨m1, hrun1, hout1, hkeep⟩ := second.chunkOps_run stale reuse1
      (Or.inl (by decide : 4096 + 4096 ≤ 12288)) ⟨m0, s.port.launch first.env.t, s.allocs + 1⟩
    rw [henv] at hrun1
    refine ⟨m1.f32 .output, ?_, ?_⟩
    · have hacquire : runMachine first.env stale [.acquireOutputSlot, .allocOutput] s =
          ⟨s.mem.allocOutput (stale s.allocs), s.port, s.allocs + 1⟩ := rfl
      rw [runMachine_append, runMachine_append, runMachine_append, runMachine_append, hacquire,
        hrun0, hrun1, OutputPort.launch_launch, hcount]
      rfl
    · intro h hh c hc a ha
      have hlt : h < 2 := lt_of_lt_of_le hh (by split <;> omega)
      have hcases : c = 0 ∨ c = 1 := by omega
      cases hcases with
      | inl h0 =>
          -- chunk 0 is not touched by chunk 1
          subst h0
          have hval := hout0 h hh a ha
          have hstay := hkeep (if h = 0 then 0 else 8192) (by split <;> omega) (by split <;> omega)
            a ha
          refine Eq.trans ?_ (hstay.trans hval)
          congr 1
          split <;> omega
      | inr h1 =>
          subst h1
          have hval := hout1 h (by rw [hheads]; exact hh) a ha
          refine Eq.trans ?_ hval
          congr 1
          split <;> omega
  -- the two tasks: a tensor for each chunk
  have htasks : ∃ output0 output1, (runMachine first.env stale'
      (first.taskOps reuse0 (fullRecord first.env.t first.firstHeadId first.start first.kPair) ++
      second.taskOps reuse1 (fullRecord first.env.t first.firstHeadId second.start first.kPair) ++
      [.launchReadyOutput]) s).port.gm =
      store ((fullRecord first.env.t first.firstHeadId second.start first.kPair).launchMoves
        first.env.t) output1 (store ((fullRecord first.env.t first.firstHeadId first.start
          first.kPair).launchMoves first.env.t) output0 (s.port.launch first.env.t).gm) ∧
      (∀ h < (if first.kPair then 2 else 1), ∀ a < 4096, output0 (h * 4096 + a) = value h 0 a) ∧
      ∀ h < (if first.kPair then 2 else 1), ∀ a < 4096, output1 (h * 4096 + a) = value h 1 a := by
    obtain ⟨m0, output0, n0, hrun0, hout0⟩ := first.taskOps_run stale' reuse0
      (fullRecord first.env.t first.firstHeadId first.start first.kPair) s
    obtain ⟨m1, output1, n1, hrun1, hout1⟩ := second.taskOps_run stale' reuse1
      (fullRecord first.env.t first.firstHeadId second.start first.kPair)
      ⟨m0, ⟨some output0, some (fullRecord first.env.t first.firstHeadId first.start first.kPair),
        (s.port.launch first.env.t).gm⟩, n0⟩
    rw [henv] at hrun1
    refine ⟨output0, output1, ?_, hout0, fun h hh a ha => hout1 h (by rw [hheads]; exact hh) a ha⟩
    rw [runMachine_append, runMachine_append, hrun0, hrun1]
    rfl
  obtain ⟨output, hgm, hout⟩ := hfused
  obtain ⟨output0, output1, hgm', hout0, hout1⟩ := htasks
  rw [hgm, hgm', chunkPair_launchMoves, fullRecord_launchMoves, fullRecord_launchMoves, hfirst,
    store_chunkPair (by omega) _ hout, store_twoTasks (by omega) _ hout0 hout1]

/-! ## The flags and the queues -/

/-- The commands by which a lane synchronizes with its cube core and passes buffers through its
input queues. -/
def LaneOp.isSync (op : LaneOp) : Bool :=
  op.isProtocol || match op with
    | .queue _ _ => true
    | .copyGateOrBeta _ _ _ _ _ => true
    | _ => false

theorem fullBatch_sync (kPair : Bool) (slotId : ℕ) (reuse : Bool) (out0 out1 : ℕ) :
    (fullBatch kPair slotId reuse out0 out1).filter LaneOp.isSync =
      completeKktLoadAndReleaseSlot slotId reuse := by
  cases kPair <;> cases reuse <;> rfl

omit [CommRing F] [LinearOrder F] in
/-- Where the output goes makes no difference to the flags and the queues. -/
theorem fused_sync (first second : FullBatch F) (reuse0 reuse1 : Bool)
    (record record0 record1 : OutputRecord) :
    ([LaneOp.acquireOutputSlot, LaneOp.allocOutput] ++ (first.chunkOps reuse0 0 8192 ++
      (second.chunkOps reuse1 4096 12288 ++
        [LaneOp.enQueOutput, LaneOp.queueOutput record]))).filter LaneOp.isSync =
    (first.taskOps reuse0 record0 ++ second.taskOps reuse1 record1).filter LaneOp.isSync := by
  simp only [FullBatch.chunkOps, FullBatch.taskOps, List.filter_append, fullBatch_sync]
  simp [LaneOp.isSync, LaneOp.isProtocol, freeBatch]

/-- **A fused pair is two single tasks.**  For a repeat of 3, on either lane, for any round, any
remaining rounds and any contents of the lane's tensors: running the pair and launching its
output leaves the output memory of the two tasks of its rounds, and the READY waits, the FREE
messages and the operations of the g and beta queues are the same commands in the same order. -/
theorem fused_pair (env : LaneEnv F) (tiling : ChunkScaledDotKktTilingData)
    (offsets : ChunkOffsets) (groupId : ℕ) (kvHeadId chunkId aivLane localRound localTaskCount : ℤ)
    (ht : env.t = tiling.t) (hR : tiling.numRepeat = 3)
    (hkv : 0 ≤ kvHeadId ∧ kvHeadId < tiling.hg) (hchunk : 0 ≤ chunkId)
    (hlane : aivLane = 0 ∨ aivLane = 1)
    (hmono : offsets.getValue chunkId ≤ offsets.getValue (chunkId + 1) ∧
      offsets.getValue (chunkId + 1) ≤ offsets.getValue (chunkId + 1 + 1))
    (hfuse : canFuseAdjacentFullChunks tiling.t offsets chunkId = true) :
    let chunks := adjacentFullChunk offsets (aivLane = 1) chunkId (kvHeadId * 3 + aivLane)
      localRound localTaskCount
    let task0 := pipelineTask tiling offsets (chunkId * tiling.hg + kvHeadId) aivLane localRound
      (localRound + SLOT_COUNT < localTaskCount)
    let task1 := pipelineTask tiling offsets ((chunkId + 1) * tiling.hg + kvHeadId) aivLane
      (i32 (localRound + 1)) (i32 (localRound + 1) + SLOT_COUNT < localTaskCount)
    let pairOps := chunks.firstOps groupId ++ chunks.secondOps tiling.t groupId
    let taskOps := task0.ops tiling groupId ++ task1.ops tiling groupId
    (∀ stale stale' s,
      (runMachine env stale (pairOps ++ [.launchReadyOutput]) s).port.gm =
        (runMachine env stale' (taskOps ++ [.launchReadyOutput]) s).port.gm) ∧
    pairOps.filter LaneOp.isSync = taskOps.filter LaneOp.isSync := by
  intro chunks task0 task1 pairOps taskOps
  obtain ⟨hstart, hnext, hend, hfull⟩ := full_of_canFuse hfuse hmono
  let kPair : Bool := aivLane = 1
  have haiv : aivLane = if kPair then 1 else 0 := by
    cases hlane with
    | inl h0 => subst h0; rfl
    | inr h1 => subst h1; rfl
  let first := laneBatch env groupId (kvHeadId * 3 + aivLane) (offsets.getValue chunkId) localRound
    kPair
  let second := laneBatch env groupId (kvHeadId * 3 + aivLane) (offsets.getValue (chunkId + 1))
    (i32 (localRound + 1)) kPair
  have htask0 : task0.ops tiling groupId = first.taskOps (localRound + SLOT_COUNT < localTaskCount)
      (fullRecord tiling.t (kvHeadId * 3 + aivLane) (offsets.getValue chunkId) kPair) := by
    have hscalars := pipelineTask_full hR hkv hchunk hlane (hfull _ (Or.inl rfl)).1
      (hfull _ (Or.inl rfl)).2 localRound (localRound + SLOT_COUNT < localTaskCount)
    simp only [task0, hscalars, first]
    rw [haiv]
    exact task_ops env groupId hR kvHeadId _ localRound _ kPair
  have htask1 : task1.ops tiling groupId =
      second.taskOps (i32 (localRound + 1) + SLOT_COUNT < localTaskCount)
      (fullRecord tiling.t (kvHeadId * 3 + aivLane) (offsets.getValue (chunkId + 1)) kPair) := by
    have hscalars := pipelineTask_full hR hkv (by omega) hlane (hfull _ (Or.inr rfl)).1
      (hfull _ (Or.inr rfl)).2 (i32 (localRound + 1))
      (i32 (localRound + 1) + SLOT_COUNT < localTaskCount)
    simp only [task1, hscalars, second]
    rw [haiv]
    exact task_ops env groupId hR kvHeadId _ (i32 (localRound + 1)) _ kPair
  have hpair := fused_ops env tiling.t offsets groupId kPair chunkId (kvHeadId * 3 + aivLane)
    localRound localTaskCount
  constructor
  · intro stale stale' s
    have hgm := fused_output first second rfl rfl hnext
      (by change 128 ≤ env.t; omega) (localRound + SLOT_COUNT < localTaskCount)
      (i32 (localRound + 1) + SLOT_COUNT < localTaskCount) stale stale' s
    simp only [pairOps, taskOps, htask0, htask1]
    rw [show chunks.firstOps groupId ++ chunks.secondOps tiling.t groupId = _ from hpair, ← ht]
    exact hgm
  · simp only [pairOps, taskOps, htask0, htask1]
    rw [show chunks.firstOps groupId ++ chunks.secondOps tiling.t groupId = _ from hpair]
    exact fused_sync first second _ _ _ _ _

/-! ### Lane 1 on the second and third chunk of a head group -/

/-- Two head groups of three heads over 1000 tokens, on two cores. -/
def threeHeadTiling : ChunkScaledDotKktTilingData := ⟨30, 1000, 2, 2, 3⟩

/-- Gates and betas of either sign, a Gram tile that grows and a stand-in for `exp`. -/
def integerEnv : LaneEnv ℤ where
  t := 1000
  gGm i := i - 500
  betaGm i := 3 - i
  kktWorkspace i := i
  exp x := x * x

theorem fused_pair_threeHeads :
    let chunks := adjacentFullChunk .full true 1 4 0 15
    let task0 := pipelineTask threeHeadTiling .full 3 1 0 true
    let task1 := pipelineTask threeHeadTiling .full 5 1 1 true
    let pairOps := chunks.firstOps 0 ++ chunks.secondOps 1000 0
    let taskOps := task0.ops threeHeadTiling 0 ++ task1.ops threeHeadTiling 0
    (∀ stale stale' s,
      (runMachine integerEnv stale (pairOps ++ [.launchReadyOutput]) s).port.gm =
        (runMachine integerEnv stale' (taskOps ++ [.launchReadyOutput]) s).port.gm) ∧
    pairOps.filter LaneOp.isSync = taskOps.filter LaneOp.isSync :=
  fused_pair integerEnv threeHeadTiling .full 0 1 1 1 0 15 rfl rfl (by decide) (by decide)
    (Or.inr rfl) (by decide) (by decide)

end ChunkScaledDotKkt
