import ChunkScaledDotKkt.Vector.Delivery
import ChunkScaledDotKkt.Vector.FusedPair
import ChunkScaledDotKkt.Vector.HeadShare
import ChunkScaledDotKkt.Vector.HeadTile

/-!
# Tasks deliver the formula

A single task with any number of head batches, the next one prefetched while one is in
work, and a fused pair of chunks: whatever the lane's tensors held before, every element
of every record gets the value of the operator's formula.

## Main results

* `PipelineTask.Fits.meets_ops` — a single task.
* `ChunkPair.meets_ops` — a fused pair, chunk by chunk.
-/

namespace ChunkScaledDotKkt

open MachineInt VectorStage BlockCopy TokenNet LaneRun

variable {F : Type}

/-- For these heads of a chunk the formula gives the results. -/
def LaneEnv.Yields [CommRing F] [LinearOrder F] (env : LaneEnv F) (IsResult : ℤ → F → Prop)
    (groupId slotId : ℕ) (start : ℤ) (chunkLen : ℕ) (firstHead lastHead : ℤ) : Prop :=
  ∀ head, firstHead ≤ head → head < lastHead → ∀ i < chunkLen, ∀ j < 64,
    IsResult (elementOffset env.t head (start + i) j)
      (env.formula groupId slotId head start chunkLen i j)

namespace VectorStage.PipelineTask

variable {tiling : ChunkScaledDotKktTilingData} {task : PipelineTask}

/-- The scalars of a task with work are those of rows and heads of a chunk. -/
structure Fits (tiling : ChunkScaledDotKktTilingData) (task : PipelineTask) : Prop where
  t_lt : tiling.t < 1073741824
  head_nonneg : 0 ≤ task.firstHead tiling + task.firstRepeat
  repeat_lt : task.firstRepeat < task.repeatEnd
  start_nonneg : 0 ≤ task.start
  rowStart_nonneg : 0 ≤ task.rowStart
  rowCount_pos : 0 < task.rowCount
  rows_le : task.rowStart + task.rowCount ≤ task.chunkLen
  chunkLen_le : task.chunkLen ≤ 64
  end_le : task.start + task.chunkLen ≤ tiling.t
  pair_rows : task.rowStart = 0 ∨ task.repeatEnd = task.firstRepeat + 1

theorem batchHeads_le (task : PipelineTask) (b : ℕ) : task.batchHeads b ≤ 2 := by
  rw [batchHeads, GATE_HEAD_BATCH]
  omega

/-! ## The commands of a batch -/

/-- The commands of a batch before its output is allocated. -/
def loads (tiling : ChunkScaledDotKktTilingData) (task : PipelineTask) (b : ℕ) : List LaneOp :=
  ([.queue .gate .deQue, .queue .beta .deQue] ++
    (if task.chunkLen ≠ ROW_ELEMS then
      zeroTailGateAndBetaBatchSuffix task.chunkLen.toNat (task.batchHeads b) else [])) ++
  (if b = 0 then [] else task.prefetchNext tiling b)

/-- What stands between the factor stage and the final multiply. -/
def between (tiling : ChunkScaledDotKktTilingData) (task : PipelineTask) (b : ℕ) : List LaneOp :=
  if b = 0 then
    completeKktLoadAndReleaseSlot task.slotId task.willReuseSlot ++ task.prefetchNext tiling b
  else []

/-- The final multiplies. -/
def finalMuls (task : PipelineTask) (b : ℕ) : List LaneOp :=
  .vector (.mul ⟨.output, 0⟩ ⟨.kkt, 0⟩ ⟨.output, 0⟩ (task.rowCount.toNat * 64)) ::
    if (task.batchHeads b : ℤ) = GATE_HEAD_BATCH then
      [.vector (.mul ⟨.output, 4096⟩ ⟨.kkt, 0⟩ ⟨.output, 4096⟩ (task.rowCount.toNat * 64))]
    else []

/-- The commands of a batch with an output tensor. -/
def work (tiling : ChunkScaledDotKktTilingData) (task : PipelineTask) (b : ℕ) : List LaneOp :=
  task.prepareBatch b ++ (task.between tiling b ++ task.finalMuls b)

theorem finalizeBatch_eq (b : ℕ) : task.finalizeBatch tiling b =
    task.finalMuls b ++ [.enQueOutput, .queueOutput (task.batchRecord tiling b)] := by
  by_cases hheads : (task.batchHeads b : ℤ) = GATE_HEAD_BATCH <;>
    simp [finalizeBatch, finalMuls, batchRecord, finalizeHeadPairWithKkt, finalizeHeadWithKkt,
      hheads]

theorem batchOps_eq (b : ℕ) : task.batchOps tiling b =
    task.loads tiling b ++ ([.acquireOutputSlot, .allocOutput] ++ (task.work tiling b ++
      ([.enQueOutput, .queueOutput (task.batchRecord tiling b)] ++ freeBatch))) := by
  by_cases h0 : b = 0 <;>
    simp [batchOps, loads, work, between, finalizeBatch_eq, freeBatch, h0]

theorem prefetchNext_plain (b : ℕ) :
    ∀ op ∈ task.prefetchNext tiling b, op.isPlain = true := by
  intro op hop
  by_cases hnext : b + 1 < task.batchCount
  · rw [prefetchNext, if_pos hnext] at hop
    simp only [prefetchBatch, prefetchGateAndBetaBatch, List.mem_cons, List.not_mem_nil,
      or_false] at hop
    rcases hop with rfl | rfl | rfl | rfl | rfl | rfl <;> rfl
  · rw [prefetchNext, if_neg hnext] at hop
    cases hop

theorem complete_plain (slotId : ℕ) (reuse : Bool) :
    ∀ op ∈ completeKktLoadAndReleaseSlot slotId reuse, op.isPlain = true := by
  cases reuse <;> simp [completeKktLoadAndReleaseSlot, LaneOp.isPlain]

theorem loads_plain (b : ℕ) : ∀ op ∈ task.loads tiling b, op.isPlain = true := by
  have hzero : ∀ op ∈ zeroTailGateAndBetaBatchSuffix task.chunkLen.toNat (task.batchHeads b),
      op.isPlain = true := by
    have hnone := zeroTail_filter (p := fun op => !op.isPlain) (fun _ _ => rfl) (fun _ _ => rfl)
      rfl task.chunkLen.toNat (task.batchHeads b)
    intro op hop
    simpa using List.filter_eq_nil_iff.mp hnone op hop
  intro op hop
  simp only [loads, List.mem_append] at hop
  rcases hop with (hop | hop) | hop
  · simp only [List.mem_cons, List.not_mem_nil, or_false] at hop
    rcases hop with rfl | rfl <;> rfl
  · split at hop
    · exact hzero op hop
    · cases hop
  · split at hop
    · cases hop
    · exact prefetchNext_plain b op hop

theorem work_plain (b : ℕ) : (∀ op ∈ task.work tiling b, op.isPlain = true) ∧
    .launchReadyOutput ∈ task.work tiling b := by
  have hprepare : (∀ op ∈ task.prepareBatch b, op.isPlain = true) ∧
      .launchReadyOutput ∈ task.prepareBatch b := by
    by_cases hheads : (task.batchHeads b : ℤ) = GATE_HEAD_BATCH
    · rw [prepareBatch, if_pos hheads]
      by_cases hrows : task.rowCount.toNat = 64 <;>
        simp [prepareHeadPairFactor, hrows, LaneOp.isPlain]
    · rw [prepareBatch, if_neg hheads]
      simp [prepareHeadFactor, LaneOp.isPlain]
  refine ⟨?_, List.mem_append_left _ hprepare.2⟩
  intro op hop
  simp only [work, List.mem_append] at hop
  rcases hop with hop | hop | hop
  · exact hprepare.1 op hop
  · rw [between] at hop
    split at hop
    · rcases List.mem_append.mp hop with hop | hop
      · exact complete_plain _ _ op hop
      · exact prefetchNext_plain b op hop
    · cases hop
  · rw [finalMuls] at hop
    split at hop
    · simp only [List.mem_cons, List.not_mem_nil, or_false] at hop
      rcases hop with rfl | rfl <;> rfl
    · rw [List.mem_singleton] at hop
      subst hop
      rfl

/-! ## Facts between the batches -/

section

variable [CommRing F] [LinearOrder F] {env : LaneEnv F}

/-- The command writes no enqueued tensor. -/
def leavesQueued : LaneOp → Bool
  | .queue _ .enQue => false
  | .vector instr =>
      match instr.target with
      | .inl (dst, _) => dst.buf != .gate .queued && dst.buf != .beta .queued
      | .inr _ => true
  | _ => true

omit [CommRing F] [LinearOrder F] in
theorem leavesQueued_keeps {op : LaneOp} (h : leavesQueued op = true) (id : QueueId)
    {off n : ℕ} {val : ℕ → F} : op.Keeps (.tensor ⟨id.buf .queued, off⟩ n val) := by
  cases op with
  | queue id' qop => cases qop <;> cases id <;> cases id' <;> simp_all [leavesQueued, QueueId.buf]
  | copyGateOrBeta id' => cases id <;> cases id' <;> simp [QueueId.buf]
  | copyKkt => cases id <;> simp [QueueId.buf]
  | vector instr =>
      cases instr <;> cases id <;> simp_all [leavesQueued, QueueId.buf]
  | _ => trivial

/-- The factor stage and the multiplies leave the enqueued rows alone. -/
theorem compute_leavesQueued (b : ℕ) :
    (task.prepareBatch b).all leavesQueued = true ∧ (task.finalMuls b).all leavesQueued = true := by
  by_cases hheads : (task.batchHeads b : ℤ) = GATE_HEAD_BATCH
  · rw [prepareBatch, finalMuls, if_pos hheads, if_pos hheads, prepareHeadPairFactor]
    by_cases hrows : task.rowCount.toNat = 64
    · rw [if_pos hrows]
      exact ⟨rfl, rfl⟩
    · rw [if_neg hrows]
      exact ⟨rfl, rfl⟩
  · rw [prepareBatch, finalMuls, if_neg hheads, if_neg hheads]
    exact ⟨rfl, rfl⟩

theorem keepsAll_queued {ops : List LaneOp} (h : ops.all leavesQueued = true) (id : QueueId)
    {off n : ℕ} {val : ℕ → F} :
    ∀ c ∈ ops, (laneLogic env).KeepsAll [.tensor ⟨id.buf .queued, off⟩ n val] c := by
  intro c hc
  have hkeeps : c.Keeps (.tensor ⟨id.buf .queued, off⟩ n val) :=
    leavesQueued_keeps (List.all_eq_true.mp h c hc) id
  simpa using hkeeps

namespace Fits

variable (h : task.Fits tiling) (ht : env.t = tiling.t) (groupId : ℕ)

include h in
theorem batchHead_nonneg (b : ℕ) : 0 ≤ task.firstHead tiling + task.batchRepeat b := by
  have := h.head_nonneg
  rw [batchRepeat, GATE_HEAD_BATCH]
  omega

include h in
theorem chunkLen_toNat_le : task.chunkLen.toNat ≤ 64 := by
  have := h.chunkLen_le
  omega

include h in
theorem end_toNat_le : task.start + task.chunkLen.toNat ≤ tiling.t := by
  have := h.end_le
  have := h.rows_le
  have := h.rowStart_nonneg
  have := h.rowCount_pos
  omega

/-- Batch `b` of the task. -/
def batch (b : ℕ) : HeadBatch env.t where
  firstHeadId := task.firstHead tiling + task.batchRepeat b
  start := task.start
  chunkLen := task.chunkLen.toNat
  heads := task.batchHeads b
  t_lt := ht ▸ h.t_lt
  firstHead_nonneg := h.batchHead_nonneg b
  start_nonneg := h.start_nonneg
  chunkLen_le := h.chunkLen_toNat_le
  end_le := ht ▸ h.end_toNat_le
  heads_le := batchHeads_le task b

include h in
theorem rows_toNat : task.rowStart.toNat + task.rowCount.toNat ≤ task.chunkLen.toNat := by
  have := h.rows_le
  have := h.rowStart_nonneg
  have := h.rowCount_pos
  omega

include h in
theorem rows_le_64 : task.rowStart.toNat + task.rowCount.toNat ≤ 64 := by
  have := h.rows_toNat
  have := h.chunkLen_le
  omega

/-- Head `k` of batch `b` over the task's rows. -/
def tile (b k : ℕ) : HeadTile F :=
  (h.batch ht b).tile groupId task.slotId task.rowStart.toNat task.rowCount.toNat k (k * 4096)
    h.rows_le_64

/-- The rows of the batch, in the tensors of the queues' slot. -/
def copies (slot : QueueSlot) (b : ℕ) : List (Fact F) :=
  (List.range (task.batchHeads b)).flatMap fun k =>
    [(h.batch ht b).copied .gate slot k, (h.batch ht b).copied .beta slot k]

/-- The prefetched rows of a batch that there is. -/
def ahead (b : ℕ) : List (Fact F) :=
  if b < task.batchCount then h.copies ht .queued b else []

/-- The rows in use, with their tails. -/
def rows (b : ℕ) : List (Fact F) :=
  (List.range (task.batchHeads b)).flatMap fun k =>
    [(h.batch ht b).row .gate k, (h.batch ht b).row .beta k]

def results (b : ℕ) : List (Fact F) :=
  (List.range (task.batchHeads b)).map fun k => (h.tile ht groupId b k).resultFact env.exp

/-- The KKT rows of the task. -/
def kkt (_ : task.Fits tiling) (env : LaneEnv F) (groupId : ℕ) : Fact F :=
  kktRows env groupId task.slotId task.chunkLen.toNat task.rowStart.toNat task.rowCount.toNat

omit [LinearOrder F] in
theorem mem_copies {slot : QueueSlot} {b : ℕ} {fact : Fact F} :
    fact ∈ h.copies ht slot b ↔
      ∃ k < task.batchHeads b, ∃ id, fact = (h.batch ht b).copied id slot k := by
  simp only [copies, List.mem_flatMap, List.mem_range, List.mem_cons, List.not_mem_nil, or_false]
  refine exists_congr fun k => and_congr_right fun _ => ?_
  constructor
  · rintro (rfl | rfl)
    · exact ⟨.gate, rfl⟩
    · exact ⟨.beta, rfl⟩
  · rintro ⟨id, rfl⟩
    cases id
    · exact Or.inl rfl
    · exact Or.inr rfl

omit [LinearOrder F] in
theorem mem_rows {b : ℕ} {fact : Fact F} : fact ∈ h.rows ht b ↔
    ∃ k < task.batchHeads b, ∃ id, fact = (h.batch ht b).row id k := by
  simp only [rows, List.mem_flatMap, List.mem_range, List.mem_cons, List.not_mem_nil, or_false]
  refine exists_congr fun k => and_congr_right fun _ => ?_
  constructor
  · rintro (rfl | rfl)
    · exact ⟨.gate, rfl⟩
    · exact ⟨.beta, rfl⟩
  · rintro ⟨id, rfl⟩
    cases id
    · exact Or.inl rfl
    · exact Or.inr rfl

omit [LinearOrder F] in
theorem mem_ahead {b : ℕ} {fact : Fact F} : fact ∈ h.ahead ht b ↔ b < task.batchCount ∧
    ∃ k < task.batchHeads b, ∃ id, fact = (h.batch ht b).copied id .queued k := by
  rw [ahead]
  split
  · rename_i hb
    rw [mem_copies]
    exact (and_iff_right hb).symm
  · rename_i hb
    simp [hb]

/-! ## The loads of a batch -/

/-- The prefetch of the next batch enqueues its rows. -/
theorem prefetchNext_ahead (Γ : List (Fact F)) (b : ℕ) :
    (laneLogic env).Triple Γ (task.prefetchNext tiling b) (h.ahead ht (b + 1)) := by
  rw [prefetchNext, ahead]
  by_cases hnext : b + 1 < task.batchCount
  · rw [if_pos hnext, if_pos hnext]
    refine .of_each fun fact hfact => ?_
    obtain ⟨k, hk, id, rfl⟩ := (h.mem_copies ht).mp hfact
    have hprefetch : (laneLogic env).Triple [] (task.prefetchBatch tiling (b + 1))
        [(h.batch ht (b + 1)).copied id .queued k] := HeadBatch.prefetch_triple id hk
    exact hprefetch.weaken (List.nil_subset _) (List.Subset.refl _)
  · rw [if_neg hnext, if_neg hnext]
    exact .trivial

/-- It leaves the tensors alone that are not on their way through a queue. -/
theorem prefetchNext_keeps {ref : UbRef} {n : ℕ} {val : ℕ → F} (b : ℕ)
    (hbuf : ∀ id : QueueId, ref.buf ≠ id.buf .fresh ∧ ref.buf ≠ id.buf .queued) :
    ∀ c ∈ task.prefetchNext tiling b, (laneLogic env).KeepsAll [.tensor ref n val] c := by
  intro c hc
  by_cases hnext : b + 1 < task.batchCount
  · rw [prefetchNext, if_pos hnext] at hc
    simp only [prefetchBatch, prefetchGateAndBetaBatch, List.mem_cons, List.not_mem_nil,
      or_false] at hc
    rcases hc with rfl | rfl | rfl | rfl | rfl | rfl <;> simp [hbuf]
  · rw [prefetchNext, if_neg hnext] at hc
    cases hc

/-- A row in use is as it was when its prefetch was for a later batch. -/
theorem loads_row {b k : ℕ} (hk : k < task.batchHeads b) (id : QueueId) :
    (laneLogic env).Triple (h.copies ht .queued b) (task.loads tiling b)
      [(h.batch ht b).row id k] := by
  have hmem : [(h.batch ht b).copied id .queued k] ⊆ h.copies ht .queued b :=
    List.cons_subset.mpr ⟨(h.mem_copies ht).mpr ⟨k, hk, id, rfl⟩, List.nil_subset _⟩
  have hdeQue : (laneLogic env).Triple (h.copies ht .queued b)
      [.queue .gate .deQue, .queue .beta .deQue] [(h.batch ht b).copied id .current k] :=
    (HeadBatch.deQue_triple id).weaken hmem (List.Subset.refl _)
  have hnext : (laneLogic env).Triple [(h.batch ht b).row id k]
      (if b = 0 then [] else task.prefetchNext tiling b) [(h.batch ht b).row id k] := by
    split
    · exact .nil (List.Subset.refl _)
    · exact .frame (prefetchNext_keeps b fun id' => by
        cases id <;> cases id' <;> simp [QueueId.buf])
  rw [loads]
  refine .append (.append hdeQue ?_) hnext
  by_cases hfull : task.chunkLen = ROW_ELEMS
  · rw [if_neg (not_not.mpr hfull)]
    have hlen : task.chunkLen.toNat = 64 := by
      rw [hfull]
      rfl
    have hal : id.aligned (h.batch ht b).chunkLen = 64 := by
      have hle := id.le_aligned task.chunkLen.toNat
      have hge := id.aligned_le (h.batch ht b).chunkLen_le
      exact le_antisymm hge (hlen ▸ hle)
    rw [HeadBatch.row, ← hal]
    exact .nil (List.Subset.refl _)
  · rw [if_pos hfull]
    exact HeadBatch.zeroTail_triple id hk

theorem loads_kkt (b : ℕ) : (laneLogic env).Triple [h.kkt env groupId] (task.loads tiling b)
    [h.kkt env groupId] := by
  rw [loads]
  refine .append (.append (.frame (by simp [kkt, kktRows, QueueId.buf])) (.frame ?_)) (.frame ?_)
  · intro c hc
    split at hc
    · exact zeroTail_keeps_kktRows _ _ c hc
    · cases hc
  · intro c hc
    split at hc
    · cases hc
    · exact prefetchNext_keeps b (fun id => by cases id <;> simp [QueueId.buf]) c hc

/-- What a batch starts its output from. -/
def inputs (b : ℕ) : List (Fact F) :=
  h.kkt env groupId :: (h.rows ht b ++ if b = 0 then [] else h.ahead ht (b + 1))

/-- **The loads of a batch.** -/
theorem loads_triple (b : ℕ) :
    (laneLogic env).Triple (h.kkt env groupId :: h.copies ht .queued b) (task.loads tiling b)
      (h.inputs ht groupId b) := by
  refine .of_each fun fact hfact => ?_
  simp only [inputs, List.mem_cons, List.mem_append] at hfact
  rcases hfact with rfl | hfact | hfact
  · exact (h.loads_kkt groupId b).weaken (by simp) (List.Subset.refl _)
  · obtain ⟨k, hk, id, rfl⟩ := (h.mem_rows ht).mp hfact
    exact (h.loads_row ht hk id).weaken (List.subset_cons_self _ _) (List.Subset.refl _)
  · have h0 : b ≠ 0 := by
      rintro rfl
      simp at hfact
    rw [if_neg h0] at hfact
    have hahead : (laneLogic env).Triple (h.kkt env groupId :: h.copies ht .queued b)
        (task.loads tiling b) (h.ahead ht (b + 1)) := by
      rw [loads, if_neg h0]
      exact .append .trivial (h.prefetchNext_ahead ht [] b)
    exact hahead.weaken (List.Subset.refl _) (List.cons_subset.mpr ⟨hfact, List.nil_subset _⟩)

/-! ## The work of a batch -/

omit [CommRing F] [LinearOrder F] in
include h in
/-- A batch with two heads covers all rows from the first. -/
theorem rowStart_of_pair {b : ℕ} (hb : b < task.batchCount) (htwo : task.batchHeads b = 2) :
    task.rowStart = 0 := by
  have hcases := batchHeads_repeatEnd h.repeat_lt hb
  have hsplit := h.pair_rows
  have hle : task.firstRepeat ≤ task.batchRepeat b := by
    rw [batchRepeat, GATE_HEAD_BATCH]
    omega
  omega

omit [LinearOrder F] in
/-- The inputs of a head are among those of its batch. -/
theorem tile_inputs {b k : ℕ} (hk : k < task.batchHeads b) :
    (h.tile ht groupId b k).inputs ⊆ h.inputs ht groupId b := by
  intro fact hfact
  simp only [HeadTile.inputs, List.mem_cons, List.not_mem_nil, or_false] at hfact
  rcases hfact with rfl | rfl | rfl
  · exact List.mem_cons_of_mem _ (List.mem_append_left _
      ((h.mem_rows ht).mpr ⟨k, hk, .gate, rfl⟩))
  · exact List.mem_cons_of_mem _ (List.mem_append_left _
      ((h.mem_rows ht).mpr ⟨k, hk, .beta, rfl⟩))
  · exact List.mem_cons_self

/-- The factor stage of one head of a batch. -/
theorem prepareBatch_triple {b k : ℕ} (hb : b < task.batchCount) (hk : k < task.batchHeads b) :
    (laneLogic env).Triple (h.tile ht groupId b k).inputs (task.prepareBatch b)
      ((h.tile ht groupId b k).factorFact env.exp :: (h.tile ht groupId b k).inputs) := by
  cases batchHeads_repeatEnd h.repeat_lt hb with
  | inl hone =>
      have hno : ¬ (task.batchHeads b : ℤ) = GATE_HEAD_BATCH := by
        rw [hone.1]
        decide
      have hk0 : k = 0 := by omega
      subst hk0
      have hp : (h.tile ht groupId b 0).paired = false :=
        decide_eq_false fun htwo : task.batchHeads b = 2 => by omega
      rw [prepareBatch, if_neg hno]
      exact HeadTile.prepareHeadFactor_triple (x := h.tile ht groupId b 0) env hp rfl
  | inr htwo =>
      have hpair : (task.batchHeads b : ℤ) = GATE_HEAD_BATCH := by
        rw [htwo.1]
        rfl
      have hp : ∀ k, (h.tile ht groupId b k).paired = true := fun k => decide_eq_true htwo.1
      have hs : ∀ k, (h.tile ht groupId b k).rowStart = 0 := by
        intro k
        have hzero := h.rowStart_of_pair hb htwo.1
        change task.rowStart.toNat = 0
        omega
      rw [prepareBatch, if_pos hpair]
      obtain rfl | rfl : k = 0 ∨ k = 1 := by omega
      · exact HeadTile.prepareHeadPairFactor_first (x := h.tile ht groupId b 0) env (hp 0) rfl
          (hs 0) (Or.inl (by decide : 0 * 4096 + 4096 ≤ 4096))
      · exact HeadTile.prepareHeadPairFactor_second (x := h.tile ht groupId b 1) env (hp 1) rfl
          (hs 1) (Or.inr (by decide : 0 + 4096 ≤ 1 * 4096))

/-- The commands between leave the factor and the inputs of a head alone. -/
theorem between_keeps {ref : UbRef} {n : ℕ} {val : ℕ → F} (b : ℕ)
    (hbuf : ∀ id : QueueId, ref.buf ≠ id.buf .fresh ∧ ref.buf ≠ id.buf .queued) :
    ∀ c ∈ task.between tiling b, (laneLogic env).KeepsAll [.tensor ref n val] c := by
  intro c hc
  rw [between] at hc
  split at hc
  · rcases List.mem_append.mp hc with hc | hc
    · cases hreuse : task.willReuseSlot <;> simp [completeKktLoadAndReleaseSlot, hreuse] at hc
      · subst hc
        simp
      · rcases hc with rfl | rfl <;> simp
    · exact prefetchNext_keeps b hbuf c hc
  · cases hc

theorem between_triple (b k : ℕ) :
    (laneLogic env).Triple
      ((h.tile ht groupId b k).factorFact env.exp :: (h.tile ht groupId b k).inputs)
      (task.between tiling b)
      ((h.tile ht groupId b k).factorFact env.exp :: (h.tile ht groupId b k).inputs) := by
  refine .of_each fun fact hfact => ?_
  have hkeep : (laneLogic env).Triple [fact] (task.between tiling b) [fact] := by
    simp only [HeadTile.inputs, List.mem_cons, List.not_mem_nil, or_false] at hfact
    rcases hfact with rfl | rfl | rfl | rfl
    · exact .frame (between_keeps b fun id => by cases id <;> simp [QueueId.buf])
    · exact .frame (between_keeps b fun id => by cases id <;> simp [QueueId.buf])
    · exact .frame (between_keeps b fun id => by cases id <;> simp [QueueId.buf])
    · exact .frame (between_keeps b fun id => by cases id <;> simp [QueueId.buf])
  exact hkeep.weaken (List.cons_subset.mpr ⟨hfact, List.nil_subset _⟩) (List.Subset.refl _)

/-- The final multiplies give the result of each head. -/
theorem finalMuls_triple {b k : ℕ} (hb : b < task.batchCount) (hk : k < task.batchHeads b) :
    (laneLogic env).Triple
      ((h.tile ht groupId b k).factorFact env.exp :: (h.tile ht groupId b k).inputs)
      (task.finalMuls b)
      ((h.tile ht groupId b k).resultFact env.exp :: (h.tile ht groupId b k).inputs) := by
  have hmul := (h.tile ht groupId b k).result_step env
  cases batchHeads_repeatEnd h.repeat_lt hb with
  | inl hone =>
      have hno : ¬ (task.batchHeads b : ℤ) = GATE_HEAD_BATCH := by
        rw [hone.1]
        decide
      have hk0 : k = 0 := by omega
      subst hk0
      rw [finalMuls, if_neg hno]
      exact hmul
  | inr htwo =>
      have hpair : (task.batchHeads b : ℤ) = GATE_HEAD_BATCH := by
        rw [htwo.1]
        rfl
      rw [finalMuls, if_pos hpair]
      obtain rfl | rfl : k = 0 ∨ k = 1 := by omega
      · refine .cons hmul (.skip ?_ (.nil (List.Subset.refl _)))
        exact HeadTile.otherResult_keeps (x := h.tile ht groupId b 0)
          (Or.inl (by decide : 0 * 4096 + 4096 ≤ 4096)) _
      · refine .skip ?_ hmul
        exact HeadTile.otherResult_keeps (x := h.tile ht groupId b 1)
          (Or.inr (by decide : 0 + 4096 ≤ 1 * 4096)) _

theorem work_ahead (b : ℕ) :
    (laneLogic env).Triple (h.inputs ht groupId b) (task.work tiling b) (h.ahead ht (b + 1)) := by
  refine .of_each fun fact hfact => ?_
  obtain ⟨-, k, -, id, rfl⟩ := (h.mem_ahead ht).mp hfact
  have hleaves : (task.prepareBatch b).all leavesQueued = true ∧
      (task.finalMuls b).all leavesQueued = true := compute_leavesQueued b
  by_cases h0 : b = 0
  · have hprefetch : (laneLogic env).Triple [] (task.between tiling b) (h.ahead ht (b + 1)) := by
      rw [between, if_pos h0]
      exact .append .trivial (h.prefetchNext_ahead ht [] b)
    refine .append .trivial (.append (hprefetch.weaken (List.nil_subset _) ?_)
      (.frame (keepsAll_queued hleaves.2 id)))
    exact List.cons_subset.mpr ⟨hfact, List.nil_subset _⟩
  · have hin : (h.batch ht (b + 1)).copied id .queued k ∈ h.inputs ht groupId b := by
      rw [inputs, if_neg h0]
      exact List.mem_cons_of_mem _ (List.mem_append_right _ hfact)
    have hframe : (laneLogic env).Triple [(h.batch ht (b + 1)).copied id .queued k]
        (task.work tiling b) [(h.batch ht (b + 1)).copied id .queued k] := by
      refine .append (.frame (keepsAll_queued hleaves.1 id))
        (.append ?_ (.frame (keepsAll_queued hleaves.2 id)))
      rw [between, if_neg h0]
      exact .nil (List.Subset.refl _)
    exact hframe.weaken (List.cons_subset.mpr ⟨hin, List.nil_subset _⟩) (List.Subset.refl _)

/-- What a batch leaves. -/
def outcome (b : ℕ) : List (Fact F) :=
  h.kkt env groupId :: (h.results ht groupId b ++ h.ahead ht (b + 1))

/-- **The work of a batch.** -/
theorem work_triple {b : ℕ} (hb : b < task.batchCount) :
    (laneLogic env).Triple (h.inputs ht groupId b) (task.work tiling b)
      (h.outcome ht groupId b) := by
  have hhead : ∀ k < task.batchHeads b, (laneLogic env).Triple (h.inputs ht groupId b)
      (task.work tiling b)
      ((h.tile ht groupId b k).resultFact env.exp :: (h.tile ht groupId b k).inputs) := by
    intro k hk
    have hwork := (h.prepareBatch_triple ht groupId hb hk).append
      ((h.between_triple ht groupId b k).append (h.finalMuls_triple ht groupId hb hk))
    exact hwork.weaken (h.tile_inputs ht groupId hk) (List.Subset.refl _)
  have hpos : 0 < task.batchHeads b := by
    have := batchHeads_repeatEnd h.repeat_lt hb
    omega
  refine .of_each fun fact hfact => ?_
  simp only [outcome, List.mem_cons, List.mem_append] at hfact
  rcases hfact with rfl | hfact | hfact
  · refine (hhead 0 hpos).weaken (List.Subset.refl _) ?_
    exact List.cons_subset.mpr ⟨by simp [HeadTile.inputs]; exact Or.inr (Or.inr (Or.inr rfl)),
      List.nil_subset _⟩
  · obtain ⟨k, hk, rfl⟩ := List.mem_map.mp hfact
    refine (hhead k (List.mem_range.mp hk)).weaken (List.Subset.refl _) ?_
    exact List.cons_subset.mpr ⟨List.mem_cons_self, List.nil_subset _⟩
  · exact (h.work_ahead ht groupId b).weaken (List.Subset.refl _)
      (List.cons_subset.mpr ⟨hfact, List.nil_subset _⟩)

/-! ## A task -/

variable {IsResult : ℤ → F → Prop} {stale : ℕ → ℕ → F} {elems : List ℤ}
  (hexp : ∀ a b, env.exp a * env.exp (-b) = env.exp (a - b))
  (hyields : env.Yields IsResult groupId task.slotId task.start task.chunkLen.toNat
    (task.firstHead tiling + task.firstRepeat) (task.firstHead tiling + task.repeatEnd))

include hexp hyields in
/-- **Every move of a batch's record carries a result.** -/
theorem record_right {b : ℕ} (hb : b < task.batchCount) {m : LaneMemory F}
    (hm : (laneLogic env).Sat (h.outcome ht groupId b) m) :
    ∀ move ∈ (task.batchRecord tiling b).launchMoves env.t,
      IsResult move.dst (m.f32 .output move.src) := by
  have hrows := h.rows_toNat
  have hlen := h.chunkLen_le
  have hle := h.rows_le
  have hcount := batchHeads_repeatEnd h.repeat_lt hb
  have hplaced : (task.batchRecord tiling b).HeadsPlaced tiling.t _ _ _ _ _ :=
    batchRecord_placed h.repeat_lt hb (by omega) h.rowStart_nonneg h.pair_rows
  intro move hmove
  rw [ht] at hmove
  obtain ⟨k, x, j, hk, hx, hj, rfl⟩ := (hplaced.placed move).mp hmove
  have hres := hm _ (List.mem_cons_of_mem _ (List.mem_append_left _
    (List.mem_map.mpr ⟨k, List.mem_range.mpr hk, rfl⟩)))
  have hval := HeadBatch.output_eq hexp h.rows_le_64 hrows hres hx hj
  have hresult := hyields (task.firstHead tiling + task.batchRepeat b + k)
    (by rw [batchRepeat, GATE_HEAD_BATCH]; omega) (by omega) (task.rowStart.toNat + x) (by omega)
    j hj
  have haddr : ((task.firstHead tiling + task.batchRepeat b + k) * tiling.t +
      (task.start + task.rowStart) + x) * 64 + j =
      elementOffset env.t (task.firstHead tiling + task.batchRepeat b + k)
        (task.start + (task.rowStart.toNat + x : ℕ)) j := by
    have hcast := Int.toNat_of_nonneg h.rowStart_nonneg
    rw [elementOffset, ROW_ELEMS, ht]
    push_cast
    rw [hcast]
    ring
  simp only [haddr]
  rw [Nat.add_assoc (k * 4096), hval]
  exact hresult

include hexp hyields in
theorem meets_batchOps {b : ℕ} (hb : b < task.batchCount) :
    Meets (LaneOp.run env stale) (LaneOp.good env.t IsResult)
      (holding env (h.kkt env groupId :: h.ahead ht b) (Sent env.t IsResult elems))
      (task.batchOps tiling b)
      (holding env (h.kkt env groupId :: h.ahead ht (b + 1)) (Sent env.t IsResult
        (elems ++ targets ((task.batchRecord tiling b).launchMoves env.t)))) := by
  have hahead : h.ahead ht b = h.copies ht .queued b := if_pos hb
  have hfree : (laneLogic env).Triple (h.outcome ht groupId b) freeBatch
      (h.outcome ht groupId b) := .frame (by simp [freeBatch, FactLogic.KeepsAll])
  have hoff : ∀ fact ∈ h.inputs ht groupId b, fact.OffOutput := by
    intro fact hfact
    simp only [inputs, List.mem_cons, List.mem_append] at hfact
    rcases hfact with rfl | hfact | hfact
    · exact UbBuf.noConfusion
    · obtain ⟨k, -, id, rfl⟩ := (h.mem_rows ht).mp hfact
      cases id <;> exact UbBuf.noConfusion
    · split at hfact
      · cases hfact
      · obtain ⟨-, k, -, id, rfl⟩ := (h.mem_ahead ht).mp hfact
        cases id <;> exact UbBuf.noConfusion
  have hbatch := meets_batch stale IsResult elems (task.batchRecord tiling b) (loads_plain b)
    (work_plain b).1 (by decide) (work_plain b).2 (h.loads_triple ht groupId b) hoff
    (h.work_triple ht groupId hb) hfree
    (fun m hm => h.record_right ht groupId hexp hyields hb hm)
  rw [batchOps_eq, hahead]
  refine hbatch.weaken (fun _ hs => hs) ?_
  intro s hs
  refine ⟨fun fact hfact => hs.1 fact ?_, hs.2⟩
  rw [List.mem_cons] at hfact
  cases hfact with
  | inl hfact => exact hfact ▸ List.mem_cons_self
  | inr hfact => exact List.mem_cons_of_mem _ (List.mem_append_right _ hfact)

variable (stale elems) in
include hexp hyields in
theorem meets_processHeadRange :
    Meets (LaneOp.run env stale) (LaneOp.good env.t IsResult)
      (holding env (h.kkt env groupId :: h.ahead ht 0) (Sent env.t IsResult elems))
      (task.processHeadRange tiling)
      (Sent env.t IsResult (elems ++ (List.range task.batchCount).flatMap fun b =>
        targets ((task.batchRecord tiling b).launchMoves env.t))) := by
  let sent (b : ℕ) : LaneRun F → Prop := holding env (h.kkt env groupId :: h.ahead ht b)
    (Sent env.t IsResult (elems ++ (List.range b).flatMap fun b =>
      targets ((task.batchRecord tiling b).launchMoves env.t)))
  have hloop : Meets (LaneOp.run env stale) (LaneOp.good env.t IsResult) (sent 0)
      (task.processHeadRange tiling) (sent task.batchCount) := by
    refine .flatMap fun b hb => ?_
    refine (h.meets_batchOps ht groupId hexp hyields hb).weaken (fun _ hs => hs) ?_
    intro s hs
    refine ⟨hs.1, ?_⟩
    rw [List.range_succ, List.flatMap_append, List.flatMap_singleton, ← List.append_assoc]
    exact hs.2
  refine hloop.weaken ?_ fun _ hs => hs.2
  intro s hs
  exact ⟨hs.1, by simpa using hs.2⟩

include h ht hexp hyields in
/-- **A single task delivers the formula.** -/
theorem meets_ops (hwork : task.hasWork = true) :
    Meets (LaneOp.run env stale) (LaneOp.good env.t IsResult)
      (Sent env.t IsResult elems) (task.ops tiling groupId)
      (Sent env.t IsResult (elems ++ (task.records tiling).flatMap fun output =>
        targets (output.launchMoves env.t))) := by
  have hfirst : (laneLogic env).Triple []
      (task.prefetchBatch tiling 0 ++ ([.waitReady task.slotId] ++ beginLoadKktSlot groupId
        task.slotId task.chunkLen.toNat task.rowStart.toNat task.rowCount.toNat))
      (h.kkt env groupId :: h.ahead ht 0) := by
    refine .of_each fun fact hfact => ?_
    rw [List.mem_cons] at hfact
    cases hfact with
    | inl hfact =>
        subst hfact
        have hrows := h.rows_le_64
        exact .append .trivial (.append .trivial
          (beginLoadKktSlot_triple (h.batch ht 0).chunkLen_le (by omega)))
    | inr hfact =>
        obtain ⟨-, k, hk, id, rfl⟩ := (h.mem_ahead ht).mp hfact
        have hprefetch : (laneLogic env).Triple [] (task.prefetchBatch tiling 0)
            [(h.batch ht 0).copied id .queued k] := HeadBatch.prefetch_triple id hk
        exact hprefetch.append (.append (.frame (by simp [FactLogic.KeepsAll]))
          (.frame (beginLoadKktSlot_keeps _ _ _ _ _)))
  have hplain : ∀ op ∈ task.prefetchBatch tiling 0 ++ ([LaneOp.waitReady task.slotId] ++
      beginLoadKktSlot groupId task.slotId task.chunkLen.toNat task.rowStart.toNat
        task.rowCount.toNat), op.isPlain = true := by
    by_cases hlen : task.chunkLen.toNat = 64 <;>
      simp [prefetchBatch, prefetchGateAndBetaBatch, beginLoadKktSlot, hlen, LaneOp.isPlain]
  have hrecords : (task.records tiling).flatMap (fun output => targets (output.launchMoves env.t)) =
      (List.range task.batchCount).flatMap fun b =>
        targets ((task.batchRecord tiling b).launchMoves env.t) := by
    rw [records, if_pos hwork, List.flatMap_map]
  have hload := meets_plain stale IsResult elems hplain hfirst
  have hrange := h.meets_processHeadRange ht groupId stale elems hexp hyields
  rw [ops, if_pos hwork, if_pos hwork, hrecords]
  have hall := hload.append hrange
  simp only [List.append_assoc] at hall ⊢
  exact hall.weaken (fun s hs => ⟨FactLogic.sat_nil _ _, hs⟩) fun _ hs => hs

end Fits

end

end VectorStage.PipelineTask

/-! ## A fused pair -/

section

variable [CommRing F] [LinearOrder F]

namespace FullBatch

variable (b : FullBatch F)

omit [CommRing F] [LinearOrder F] in
/-- The rows of a batch are those of its heads. -/
theorem fullRow_eq (ht : b.env.t < 1073741824) (hhead : 0 ≤ b.firstHeadId) (hstart : 0 ≤ b.start)
    (hend : b.start + 64 ≤ b.env.t) (id : QueueId) {k : ℕ} (hk : k < 2) (i : ℕ) :
    id.fullRow b.env b.firstHeadId b.start k i = id.value b.env (b.firstHeadId + k) b.start i := by
  let batch : HeadBatch b.env.t :=
    ⟨b.firstHeadId, b.start, 64, 2, ht, hhead, hstart, le_refl 64, hend, le_refl 2⟩
  have hpitch : sourcePitch id b.env.t = b.env.t.toNat :=
    (gateOrBetaParams_spec id ht (le_refl 64) (by omega) (le_refl 2)).2.2.1
  rw [QueueId.fullRow, QueueId.value, hpitch]
  exact congrArg (id.gm b.env) (batch.src_index hk i)

/-- **The result of a batch is the formula.** -/
theorem result_eq (hexp : ∀ a c, b.env.exp a * b.env.exp (-c) = b.env.exp (a - c))
    (ht : b.env.t < 1073741824) (hhead : 0 ≤ b.firstHeadId) (hstart : 0 ≤ b.start)
    (hend : b.start + 64 ≤ b.env.t) {k i j : ℕ} (hk : k < 2) (hj : j < 64) :
    b.result k (i * 64 + j) =
      b.env.formula b.groupId b.slotId (b.firstHeadId + k) b.start 64 i j := by
  have hdiv : (i * 64 + j) / 64 = i := by omega
  have hmod : (i * 64 + j) % 64 = j := by omega
  have hrow := fun id => b.fullRow_eq ht hhead hstart hend id hk
  simp only [result, tile, HeadTile.factor, HeadTile.less, HeadTile.column, HeadTile.rowFactor,
    hdiv, hmod, hj, if_true, LaneEnv.formula, true_and, Nat.zero_add, hrow, decide_eq_true_eq]
  split
  · rw [← hexp]
    ring
  · ring

/-- A chunk of a fused pair, its tiles at the given places. -/
theorem chunk_triple {k out0 out1 : ℕ} (hk : k < b.heads)
    (hout : out0 + 4096 ≤ out1 ∨ out1 + 4096 ≤ out0) (reuse : Bool) :
    (laneLogic b.env).Triple [] (b.chunkOps reuse out0 out1)
      [b.resultAt k (if k = 0 then out0 else out1)] := by
  refine (b.inputs_triple hk _).append ((b.fullBatch_triple hk hout reuse).append (.frame ?_))
  simp [freeBatch, FactLogic.KeepsAll]

theorem chunk_keeps {out out0 out1 : ℕ} {val : ℕ → F} (reuse : Bool)
    (h0 : out0 + 4096 ≤ out ∨ out + 4096 ≤ out0) (h1 : out1 + 4096 ≤ out ∨ out + 4096 ≤ out1) :
    (laneLogic b.env).Triple [.tensor ⟨.output, out⟩ 4096 val] (b.chunkOps reuse out0 out1)
      [.tensor ⟨.output, out⟩ 4096 val] := by
  have hkeep : (laneLogic b.env).Triple [.tensor ⟨.output, out⟩ 4096 val] _
      [.tensor ⟨.output, out⟩ 4096 val] := b.fullBatch_keeps reuse h0 h1
  have hfree : (laneLogic b.env).Triple [.tensor ⟨.output, out⟩ 4096 val] freeBatch
      [.tensor ⟨.output, out⟩ 4096 val] := .frame (by simp [freeBatch])
  rw [chunkOps, ← List.append_assoc]
  exact hkeep.append hfree

omit [CommRing F] [LinearOrder F] in
theorem chunkOps_plain (reuse : Bool) (out0 out1 : ℕ) :
    (∀ op ∈ b.chunkOps reuse out0 out1, op.isPlain = true) ∧
      .launchReadyOutput ∈ b.chunkOps reuse out0 out1 := by
  have hinputs := fullInputs_plain b.groupId b.slotId b.firstHeadId b.start b.heads
  have hbatch := fullBatch_plain b.kPair b.slotId reuse out0 out1
  have hfree : ∀ op ∈ freeBatch, op.isPlain = true := by decide
  simp only [chunkOps, List.mem_append]
  refine ⟨?_, Or.inr (Or.inl hbatch.2)⟩
  rintro op (hop | hop | hop)
  · exact hinputs.1 op hop
  · exact hbatch.1 op hop
  · exact hfree op hop

end FullBatch

namespace VectorStage.ChunkPair

variable (pair : ChunkPair) (groupId : ℕ)

/-- A chunk of the pair in the environment of its round. -/
def batch (env : LaneEnv F) (start : ℤ) (slotId : ℕ) : FullBatch F :=
  ⟨env, groupId, slotId, pair.firstHeadId, start, pair.kPair⟩

omit [CommRing F] [LinearOrder F] in
theorem chunkOps_eq (env : LaneEnv F) (start : ℤ) (slotId : ℕ) (reuse : Bool) (out0 out1 : ℕ) :
    pair.chunkOps groupId start slotId reuse out0 out1 =
      (pair.batch groupId env start slotId).chunkOps reuse out0 out1 := by
  cases hpair : pair.kPair <;>
    simp [chunkOps, batch, FullBatch.chunkOps, FullBatch.heads, kHeadCount, fullInputs, fullBatch,
      freeBatch, hpair]

/-- The scalars of two adjacent full chunks. -/
structure Fits (t : ℤ) (pair : ChunkPair) : Prop where
  t_lt : t < 1073741824
  head_nonneg : 0 ≤ pair.firstHeadId
  start_nonneg : 0 ≤ pair.firstStart
  secondStart : pair.secondStart = pair.firstStart + 64
  end_le : pair.firstStart + 128 ≤ t

variable {pair} {t : ℤ} {groupId} {stale : ℕ → ℕ → F} {elems : List ℤ} {IsResult : ℤ → F → Prop}

/-- The tiles that the first chunk leaves for the second. -/
def firstTiles (pair : ChunkPair) (groupId : ℕ) (env : LaneEnv F) : List (Fact F) :=
  (List.range pair.kHeadCount).map fun k =>
    (pair.batch groupId env pair.firstStart pair.firstSlotId).resultAt k (k * 8192)

def secondTiles (pair : ChunkPair) (groupId : ℕ) (env : LaneEnv F) : List (Fact F) :=
  (List.range pair.kHeadCount).map fun k =>
    (pair.batch groupId env pair.secondStart pair.secondSlotId).resultAt k (k * 8192 + 4096)

theorem kHeadCount_le (pair : ChunkPair) : pair.kHeadCount = 1 ∨ pair.kHeadCount = 2 := by
  cases hpair : pair.kPair <;> simp [kHeadCount, hpair]

/-- **The first round of a pair** launches what was ready and keeps its tiles. -/
theorem meets_firstOps (env : LaneEnv F) :
    Meets (LaneOp.run env stale) (LaneOp.good env.t IsResult) (Sent env.t IsResult elems)
      (pair.firstOps groupId) (holding env (pair.firstTiles groupId env) (Idle elems)) := by
  let b := pair.batch groupId env pair.firstStart pair.firstSlotId
  have hplain := b.chunkOps_plain pair.reuseFirstSlot 0 8192
  have htriple : (laneLogic env).Triple [] (b.chunkOps pair.reuseFirstSlot 0 8192)
      (pair.firstTiles groupId env) := by
    refine .of_each fun fact hfact => ?_
    obtain ⟨k, hk, rfl⟩ := List.mem_map.mp hfact
    have hcount := pair.kHeadCount_le
    have hlt := List.mem_range.mp hk
    have hout : k * 8192 = if k = 0 then 0 else 8192 := by split <;> omega
    rw [hout]
    exact b.chunk_triple hlt (Or.inl (by decide)) pair.reuseFirstSlot
  have hoff : ∀ fact ∈ ([] : List (Fact F)), fact.OffOutput := by simp
  have hchunk := (meets_alloc stale IsResult elems hoff).append
    (meets_launching stale IsResult elems hplain.1 hplain.2 htriple)
  rw [firstOps, chunkOps_eq pair groupId env]
  exact hchunk.weaken (fun s hs => ⟨FactLogic.sat_nil _ _, hs⟩) fun _ hs => hs

/-- Every move of a pair's record carries a result. -/
theorem record_right (h : pair.Fits t) {env0 env1 : LaneEnv F} (ht0 : env0.t = t)
    (ht1 : env1.t = t) (hexp0 : ∀ a c, env0.exp a * env0.exp (-c) = env0.exp (a - c))
    (hexp1 : ∀ a c, env1.exp a * env1.exp (-c) = env1.exp (a - c))
    (hyields0 : env0.Yields IsResult groupId pair.firstSlotId pair.firstStart 64 pair.firstHeadId
      (pair.firstHeadId + pair.kHeadCount))
    (hyields1 : env1.Yields IsResult groupId pair.secondSlotId pair.secondStart 64 pair.firstHeadId
      (pair.firstHeadId + pair.kHeadCount)) {m : LaneMemory F}
    (hm : (laneLogic env1).Sat (pair.firstTiles groupId env0 ++ pair.secondTiles groupId env1) m) :
    ∀ move ∈ (pair.record t).launchMoves t, IsResult move.dst (m.f32 .output move.src) := by
  have hcount := pair.kHeadCount_le
  have hstart := h.start_nonneg
  have hsecond := h.secondStart
  have hend := h.end_le
  have hplaced := queueDelayedChunkPairOutput_placed t pair.firstHeadId pair.firstStart hcount
  intro move hmove
  obtain ⟨k, x, j, hk, hx, hj, rfl⟩ := (hplaced.placed move).mp hmove
  by_cases hfirst : x < 64
  · have hres := hm _ (List.mem_append_left _ (List.mem_map.mpr ⟨k, List.mem_range.mpr hk, rfl⟩))
      (x * 64 + j) (by omega)
    have heq := (pair.batch groupId env0 pair.firstStart pair.firstSlotId).result_eq hexp0
      (ht0.trans_lt h.t_lt) h.head_nonneg hstart (by simp only [batch, ht0]; omega)
      (by omega : k < 2) hj (i := x)
    have hresult := hyields0 (pair.firstHeadId + k) (by omega) (by omega) x hfirst j hj
    have haddr : ((pair.firstHeadId + k) * t + pair.firstStart + x) * 64 + j =
        elementOffset env0.t (pair.firstHeadId + k) (pair.firstStart + x) j := by
      rw [elementOffset, ROW_ELEMS, ht0, Int.add_assoc ((pair.firstHeadId + k) * t)]
    simp only [haddr]
    rw [Nat.add_assoc (k * 8192)]
    exact (hres.trans heq) ▸ hresult
  · obtain ⟨i, rfl⟩ := Nat.exists_eq_add_of_le (not_lt.mp hfirst)
    have hres := hm _ (List.mem_append_right _ (List.mem_map.mpr ⟨k, List.mem_range.mpr hk, rfl⟩))
      (i * 64 + j) (by omega)
    have heq := (pair.batch groupId env1 pair.secondStart pair.secondSlotId).result_eq hexp1
      (ht1.trans_lt h.t_lt) h.head_nonneg (by simp only [batch]; omega)
      (by simp only [batch, ht1]; omega) (by omega : k < 2) hj (i := i)
    have hresult := hyields1 (pair.firstHeadId + k) (by omega) (by omega) i (by omega) j hj
    have haddr : ((pair.firstHeadId + k) * t + pair.firstStart + (64 + i : ℕ)) * 64 + j =
        elementOffset env1.t (pair.firstHeadId + k) (pair.secondStart + i) j := by
      rw [elementOffset, ROW_ELEMS, ht1, hsecond]
      push_cast
      ring
    have hsrc : k * 8192 + (64 + i) * 64 + j = k * 8192 + 4096 + (i * 64 + j) := by omega
    simp only [haddr, hsrc]
    exact (hres.trans heq) ▸ hresult

/-- The second chunk adds its tiles to those of the first. -/
theorem second_triple (pair : ChunkPair) (groupId : ℕ) (env0 env1 : LaneEnv F) :
    (laneLogic env1).Triple (pair.firstTiles groupId env0)
      ((pair.batch groupId env1 pair.secondStart pair.secondSlotId).chunkOps pair.reuseSecondSlot
        4096 12288) (pair.firstTiles groupId env0 ++ pair.secondTiles groupId env1) := by
  let b := pair.batch groupId env1 pair.secondStart pair.secondSlotId
  have hcount := pair.kHeadCount_le
  refine .of_each fun fact hfact => ?_
  rw [List.mem_append] at hfact
  cases hfact with
  | inl hfact =>
      obtain ⟨k, hk, rfl⟩ := List.mem_map.mp hfact
      have hlt := List.mem_range.mp hk
      let val := (pair.batch groupId env0 pair.firstStart pair.firstSlotId).result k
      have hkeep : (laneLogic env1).Triple [.tensor ⟨.output, k * 8192⟩ 4096 val]
          (b.chunkOps pair.reuseSecondSlot 4096 12288) [.tensor ⟨.output, k * 8192⟩ 4096 val] :=
        b.chunk_keeps pair.reuseSecondSlot (by omega) (by omega)
      exact hkeep.weaken (List.cons_subset.mpr ⟨hfact, List.nil_subset _⟩) (List.Subset.refl _)
  | inr hfact =>
      obtain ⟨k, hk, rfl⟩ := List.mem_map.mp hfact
      have hlt := List.mem_range.mp hk
      have hout : k * 8192 + 4096 = if k = 0 then 4096 else 12288 := by split <;> omega
      rw [hout]
      exact (b.chunk_triple hlt (Or.inl (by decide)) pair.reuseSecondSlot).weaken
        (List.nil_subset _) (List.Subset.refl _)

/-- **The second round of a pair** queues the tiles of both. -/
theorem meets_secondOps (h : pair.Fits t) {env0 env1 : LaneEnv F} (ht0 : env0.t = t)
    (ht1 : env1.t = t) (hexp0 : ∀ a c, env0.exp a * env0.exp (-c) = env0.exp (a - c))
    (hexp1 : ∀ a c, env1.exp a * env1.exp (-c) = env1.exp (a - c))
    (hyields0 : env0.Yields IsResult groupId pair.firstSlotId pair.firstStart 64 pair.firstHeadId
      (pair.firstHeadId + pair.kHeadCount))
    (hyields1 : env1.Yields IsResult groupId pair.secondSlotId pair.secondStart 64 pair.firstHeadId
      (pair.firstHeadId + pair.kHeadCount)) :
    Meets (LaneOp.run env1 stale) (LaneOp.good t IsResult)
      (holding env0 (pair.firstTiles groupId env0) (Idle elems)) (pair.secondOps t groupId)
      (Sent t IsResult (elems ++ targets ((pair.record t).launchMoves t))) := by
  have hplain := (pair.batch groupId env1 pair.secondStart pair.secondSlotId).chunkOps_plain
    pair.reuseSecondSlot 4096 12288
  have hops : pair.secondOps t groupId =
      (pair.batch groupId env1 pair.secondStart pair.secondSlotId).chunkOps pair.reuseSecondSlot
        4096 12288 ++ [.enQueOutput, .queueOutput (pair.record t)] := by
    rw [secondOps, chunkOps_eq pair groupId env1]
    rfl
  have hchunk := meets_launching stale IsResult elems hplain.1 hplain.2
    (second_triple pair groupId env0 env1)
  have hright : ∀ m, (laneLogic env1).Sat (pair.firstTiles groupId env0 ++
      pair.secondTiles groupId env1) m → ∀ move ∈ (pair.record t).launchMoves env1.t,
      IsResult move.dst (m.f32 .output move.src) := by
    intro m hm
    rw [ht1]
    exact record_right h ht0 ht1 hexp0 hexp1 hyields0 hyields1 hm
  have hqueue := meets_queue stale IsResult elems (pair.record t) hright
  rw [ht1] at hchunk hqueue
  rw [hops]
  refine (hchunk.append hqueue).weaken ?_ fun s hs => hs.2
  rintro s ⟨hfacts, hidle⟩
  exact ⟨sat_laneLogic hfacts, hidle.sent⟩

end VectorStage.ChunkPair

end

end ChunkScaledDotKkt
