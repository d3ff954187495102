import ChunkScaledDotKkt.Cube.Stage

/-!
# The vector stage

The commands of one AIV lane in program order: the prefetch of gate and beta, the
load of the KKT slot, the row and column factors, the final multiply, the queueing
of the output and the release of the slot.  A round runs alone through
`processPipelineTask` or as half of a fused pair through `processAdjacentFullChunk`.

The effect of a command on the lane's UB tensors is in `Vector.Memory`; the output
stream and the cross-core flags are given their meaning in `Vector.OutputStream` and
`System`.
-/

namespace ChunkScaledDotKkt

open MachineInt

/-! ## Buffers -/

/-- Where a tensor of a VECIN queue is: being filled, enqueued, or in use. -/
inductive QueueSlot
  | fresh
  | queued
  | current
  deriving Repr, DecidableEq

/-- The 32-bit tensors of a lane.  `output` is the tensor allocated for the batch in
work. -/
inductive UbBuf
  | kkt
  | gate (slot : QueueSlot)
  | beta (slot : QueueSlot)
  | negGSingle
  | negGPair
  | scratch
  | output
  deriving Repr, DecidableEq

inductive MaskBuf
  | single
  | pair
  deriving Repr, DecidableEq

/-- A tensor from an element offset on. -/
structure UbRef where
  buf : UbBuf
  off : ℕ
  deriving Repr, DecidableEq

/-- A mask tensor from a bit offset on. -/
structure MaskRef where
  buf : MaskBuf
  off : ℕ
  deriving Repr, DecidableEq

/-! ## Commands -/

/-- The vector instructions the lane issues, with the scalar operands they use. -/
inductive VectorInstr
  | duplicateZero (dst : UbRef) (n : ℕ)
  | mulsNegOne (dst src : UbRef) (n : ℕ)
  | brcb (dst src : UbRef) (repeats : ℕ)
  | compareLT (dst : MaskRef) (src0 src1 : UbRef) (repeats : ℕ)
  | exp (dst src : UbRef) (n : ℕ)
  | cast (dst src : UbRef) (n : ℕ)
  | mul (dst src0 src1 : UbRef) (n : ℕ)
  | mulRows (dst src0 src1 : UbRef) (repeats : ℕ)
  | select (dst : UbRef) (mask : MaskRef) (src : UbRef) (n : ℕ)
  deriving Repr, DecidableEq

inductive QueueId
  | gate
  | beta
  deriving Repr, DecidableEq

inductive QueueOp
  | allocTensor
  | enQue
  | deQue
  | freeTensor
  deriving Repr, DecidableEq

/-- A record that a `QueueDelayed…Output` call writes. -/
structure OutputRecord where
  isPair : Bool
  isChunkPair : Bool
  firstOutputOffset : ℤ
  secondOutputOffset : ℤ
  activeElems : ℤ
  deriving Repr, DecidableEq

/-- A command issued by a lane's scalar unit. -/
inductive LaneOp
  | waitReady (slotId : ℕ)
  | setFree (slotId : ℕ)
  | setFlag (event : HardEvent)
  | waitFlag (event : HardEvent)
  | pipeBarrierV
  | queue (id : QueueId) (op : QueueOp)
  | copyGateOrBeta (id : QueueId) (firstHeadId start : ℤ) (chunkLen batchHeads : ℕ)
  | copyKkt (groupId slotId chunkLen rowStart rowCount : ℕ)
  | vector (instr : VectorInstr)
  | acquireOutputSlot
  | allocOutput
  | launchReadyOutput
  | enQueOutput
  | queueOutput (output : OutputRecord)
  | drainAllOutputSlots
  deriving Repr, DecidableEq

namespace VectorStage

def GATE_HEAD_BATCH : ℤ := 2
def AIVS_PER_AIC : ℤ := 2
def FALLBACK_ROWS_PER_AIV : ℤ := 32

/-! ## Parts of a task -/

def prefetchGateAndBetaBatch (firstHeadId start : ℤ) (chunkLen batchHeads : ℕ) : List LaneOp :=
  [.queue .gate .allocTensor, .queue .beta .allocTensor,
   .copyGateOrBeta .gate firstHeadId start chunkLen batchHeads,
   .copyGateOrBeta .beta firstHeadId start chunkLen batchHeads,
   .queue .gate .enQue, .queue .beta .enQue]

def zeroTailGateAndBetaBatchSuffix (chunkLen batchHeads : ℕ) : List LaneOp :=
  let gAlignedElems := (chunkLen + 7) / 8 * 8
  let betaAlignedElems := (chunkLen + 15) / 16 * 16
  (List.range batchHeads).flatMap (fun headInBatch =>
    let headOffset := headInBatch * 64
    (if gAlignedElems < 64 then
      [.vector (.duplicateZero ⟨.gate .current, headOffset + gAlignedElems⟩ (64 - gAlignedElems))]
    else []) ++
    (if betaAlignedElems < 64 then
      [.vector (.duplicateZero ⟨.beta .current, headOffset + betaAlignedElems⟩
        (64 - betaAlignedElems))]
    else [])) ++
  (if gAlignedElems < 64 ∨ betaAlignedElems < 64 then [.pipeBarrierV] else [])

def beginLoadKktSlot (groupId slotId chunkLen rowStart rowCount : ℕ) : List LaneOp :=
  (if chunkLen ≠ 64 then [.vector (.duplicateZero ⟨.kkt, 0⟩ (rowCount * 64))] else []) ++
  [.setFlag .v_mte2, .waitFlag .v_mte2, .copyKkt groupId slotId chunkLen rowStart rowCount,
   .setFlag .mte2_v]

def completeKktLoadAndReleaseSlot (slotId : ℕ) (willReuseSlot : Bool) : List LaneOp :=
  [.waitFlag .mte2_v] ++ (if willReuseSlot then [.setFree slotId] else [])

/-- `rowBrcbRepeats` -/
def rowBrcbRepeats (rowCount : ℕ) : ℕ := (u8 ((rowCount + 7) / 8 : ℕ)).toNat

/-- The repeat count of the strided instructions. -/
def rowRepeats (rowCount : ℕ) : ℕ := (u8 rowCount).toNat

/-- `PrepareHeadFactor` for the output tensor from element `out` on. -/
def prepareHeadFactor (chunkLen rowStart rowCount out : ℕ) : List LaneOp :=
  let negG : UbRef := ⟨.negGSingle, 0⟩
  let scratch : UbRef := ⟨.scratch, 0⟩
  let mask : MaskRef := ⟨.single, 0⟩
  let output : UbRef := ⟨.output, out⟩
  [.vector (.mulsNegOne negG ⟨.gate .current, 0⟩ 64),
   .vector (.brcb scratch ⟨.gate .current, rowStart⟩ (rowBrcbRepeats rowCount)),
   .launchReadyOutput, .pipeBarrierV,
   .vector (.compareLT mask scratch ⟨.gate .current, 0⟩ (rowRepeats rowCount)),
   .vector (.exp negG negG chunkLen), .pipeBarrierV,
   .vector (.exp output ⟨.gate .current, rowStart⟩ rowCount),
   .vector (.cast scratch ⟨.beta .current, rowStart⟩ rowCount), .pipeBarrierV,
   .vector (.mul output output scratch rowCount), .pipeBarrierV,
   .vector (.brcb scratch output (rowBrcbRepeats rowCount)), .pipeBarrierV,
   .vector (.mulRows output negG scratch (rowRepeats rowCount)), .pipeBarrierV,
   .vector (.select output mask output (rowCount * 64)), .pipeBarrierV]

/-- `PrepareHeadPairFactor` for the output tensors from elements `out0` and `out1` on. -/
def prepareHeadPairFactor (chunkLen rowCount out0 out1 : ℕ) : List LaneOp :=
  let negG0 : UbRef := ⟨.negGPair, 0⟩
  let negG1 : UbRef := ⟨.negGPair, 64⟩
  let g0 : UbRef := ⟨.gate .current, 0⟩
  let g1 : UbRef := ⟨.gate .current, 64⟩
  let scratch0 : UbRef := ⟨.scratch, 0⟩
  let scratch1 : UbRef := ⟨.scratch, 64 * 8⟩
  let mask0 : MaskRef := ⟨.pair, 0⟩
  let mask1 : MaskRef := ⟨.pair, (64 * 64 + 7) / 8 * 8⟩
  let output0 : UbRef := ⟨.output, out0⟩
  let output1 : UbRef := ⟨.output, out1⟩
  [.vector (.mulsNegOne negG0 g0 (2 * 64))] ++
  (if rowCount = 64 then [.vector (.brcb scratch0 g0 (u8 (2 * 64 / 8)).toNat)]
   else [.vector (.brcb scratch0 g0 (rowBrcbRepeats rowCount)),
         .vector (.brcb scratch1 g1 (rowBrcbRepeats rowCount))]) ++
  [.pipeBarrierV,
   .vector (.compareLT mask0 scratch0 g0 (rowRepeats rowCount)),
   .vector (.compareLT mask1 scratch1 g1 (rowRepeats rowCount)),
   .vector (.exp negG0 negG0 chunkLen), .vector (.exp negG1 negG1 chunkLen),
   .launchReadyOutput, .pipeBarrierV,
   .vector (.cast scratch0 ⟨.beta .current, 0⟩ (2 * 64)),
   .vector (.exp output0 g0 rowCount), .vector (.exp output1 g1 rowCount), .pipeBarrierV,
   .vector (.mul output0 output0 scratch0 rowCount),
   .vector (.mul output1 output1 ⟨.scratch, 64⟩ rowCount), .pipeBarrierV,
   .vector (.brcb scratch0 output0 (rowBrcbRepeats rowCount)),
   .vector (.brcb scratch1 output1 (rowBrcbRepeats rowCount)), .pipeBarrierV,
   .vector (.mulRows output0 negG0 scratch0 (rowRepeats rowCount)),
   .vector (.mulRows output1 negG1 scratch1 (rowRepeats rowCount)), .pipeBarrierV,
   .vector (.select output0 mask0 output0 (rowCount * 64)),
   .vector (.select output1 mask1 output1 (rowCount * 64)), .pipeBarrierV]

/-! ## Output records -/

def queueDelayedSingleOutput (t headId start rowStart rowCount : ℤ) : OutputRecord where
  isPair := false
  isChunkPair := false
  firstOutputOffset := (headId * t + start + rowStart) * ROW_ELEMS
  secondOutputOffset := 0
  activeElems := u32 (rowCount * ROW_ELEMS)

def queueDelayedPairOutput (t firstHeadId start activeElems : ℤ) : OutputRecord where
  isPair := true
  isChunkPair := false
  firstOutputOffset := (firstHeadId * t + start) * ROW_ELEMS
  secondOutputOffset := ((firstHeadId + 1) * t + start) * ROW_ELEMS
  activeElems := u32 activeElems

def queueDelayedChunkPairOutput (t firstHeadId firstChunkStart localHeadCount : ℤ) :
    OutputRecord where
  isPair := localHeadCount = GATE_HEAD_BATCH
  isChunkPair := true
  firstOutputOffset := (firstHeadId * t + firstChunkStart) * ROW_ELEMS
  secondOutputOffset := if localHeadCount = GATE_HEAD_BATCH then
    ((firstHeadId + 1) * t + firstChunkStart) * ROW_ELEMS else 0
  activeElems := 2 * u32 KKT_ELEMS

def finalizeHeadWithKkt (t headId start : ℤ) (rowStart rowCount : ℕ) : List LaneOp :=
  [.vector (.mul ⟨.output, 0⟩ ⟨.kkt, 0⟩ ⟨.output, 0⟩ (rowCount * 64)), .enQueOutput,
   .queueOutput (queueDelayedSingleOutput t headId start rowStart rowCount)]

def finalizeHeadPairWithKkt (t firstHeadId start : ℤ) (rowCount : ℕ) : List LaneOp :=
  [.vector (.mul ⟨.output, 0⟩ ⟨.kkt, 0⟩ ⟨.output, 0⟩ (rowCount * 64)),
   .vector (.mul ⟨.output, 4096⟩ ⟨.kkt, 0⟩ ⟨.output, 4096⟩ (rowCount * 64)), .enQueOutput,
   .queueOutput (queueDelayedPairOutput t firstHeadId start (rowCount * ROW_ELEMS))]

/-! ## A single task -/

/-- The scalars of `ProcessPipelineTask`. -/
structure PipelineTask where
  slotId : ℕ
  kvHeadId : ℤ
  start : ℤ
  chunkLen : ℤ
  rowStart : ℤ
  rowCount : ℤ
  firstRepeat : ℤ
  repeatEnd : ℤ
  hasWork : Bool
  willReuseSlot : Bool
  deriving Repr, DecidableEq

/-- The head split of the main path or the row split of the `H / Hg = 1` fallback. -/
def pipelineTask (tiling : ChunkScaledDotKktTilingData) (offsets : ChunkOffsets)
    (taskId aivLane localRound : ℤ) (willReuseSlot : Bool) : PipelineTask :=
  let slotId := (slotIdOf localRound).toNat
  let kvHeadId := taskId.tmod tiling.hg
  let chunkId := taskId.tdiv tiling.hg
  let start := offsets.getValue chunkId
  let chunkLen := offsets.chunkLen chunkId
  let valid := validChunk tiling.t offsets chunkId
  let headSplit := tiling.numRepeat ≥ AIVS_PER_AIC
  let rowStart := if valid ∧ ¬ headSplit then aivLane * FALLBACK_ROWS_PER_AIV else 0
  let rowCount := if valid then
      if headSplit then chunkLen else max 0 (min FALLBACK_ROWS_PER_AIV (chunkLen - rowStart))
    else 0
  let firstRepeat := if valid ∧ headSplit then
    (aivLane * tiling.numRepeat).tdiv AIVS_PER_AIC else 0
  let repeatEnd := if valid then
      if headSplit then ((aivLane + 1) * tiling.numRepeat).tdiv AIVS_PER_AIC else 1
    else 0
  { slotId, kvHeadId, start, chunkLen, rowStart, rowCount, firstRepeat, repeatEnd,
    hasWork := valid && rowCount > 0 && firstRepeat < repeatEnd, willReuseSlot }

namespace PipelineTask

variable (tiling : ChunkScaledDotKktTilingData) (groupId : ℕ) (task : PipelineTask)

/-- `firstHead` -/
def firstHead : ℤ := task.kvHeadId * tiling.numRepeat

/-- The head batches of the task. -/
def batchCount : ℕ :=
  ((task.repeatEnd - task.firstRepeat + GATE_HEAD_BATCH - 1).tdiv GATE_HEAD_BATCH).toNat

def batchRepeat (batchId : ℕ) : ℤ := task.firstRepeat + batchId * GATE_HEAD_BATCH

def batchHeads (batchId : ℕ) : ℕ :=
  (min GATE_HEAD_BATCH (task.repeatEnd - task.batchRepeat batchId)).toNat

def prefetchBatch (batchId : ℕ) : List LaneOp :=
  prefetchGateAndBetaBatch (task.firstHead tiling + task.batchRepeat batchId) task.start
    task.chunkLen.toNat (task.batchHeads batchId)

/-- The prefetch of the next batch, if there is one. -/
def prefetchNext (batchId : ℕ) : List LaneOp :=
  if batchId + 1 < task.batchCount then task.prefetchBatch tiling (batchId + 1) else []

/-- The factor stage of a batch. -/
def prepareBatch (batchId : ℕ) : List LaneOp :=
  if (task.batchHeads batchId : ℤ) = GATE_HEAD_BATCH then
    prepareHeadPairFactor task.chunkLen.toNat task.rowCount.toNat 0 4096
  else prepareHeadFactor task.chunkLen.toNat task.rowStart.toNat task.rowCount.toNat 0

/-- The final multiply and the queueing of a batch. -/
def finalizeBatch (batchId : ℕ) : List LaneOp :=
  let headId := task.firstHead tiling + task.batchRepeat batchId
  if (task.batchHeads batchId : ℤ) = GATE_HEAD_BATCH then
    finalizeHeadPairWithKkt tiling.t headId task.start task.rowCount.toNat
  else
    finalizeHeadWithKkt tiling.t headId task.start task.rowStart.toNat task.rowCount.toNat

/-- One turn of the loop of `ProcessHeadRange`. -/
def batchOps (batchId : ℕ) : List LaneOp :=
  [.queue .gate .deQue, .queue .beta .deQue] ++
  (if task.chunkLen ≠ ROW_ELEMS then
    zeroTailGateAndBetaBatchSuffix task.chunkLen.toNat (task.batchHeads batchId) else []) ++
  (if batchId = 0 then
    [.acquireOutputSlot, .allocOutput] ++ task.prepareBatch batchId ++
    completeKktLoadAndReleaseSlot task.slotId task.willReuseSlot ++
    task.prefetchNext tiling batchId ++ task.finalizeBatch tiling batchId
  else
    task.prefetchNext tiling batchId ++ [.acquireOutputSlot, .allocOutput] ++
    task.prepareBatch batchId ++ task.finalizeBatch tiling batchId) ++
  [.queue .gate .freeTensor, .queue .beta .freeTensor]

def processHeadRange : List LaneOp :=
  (List.range task.batchCount).flatMap (task.batchOps tiling)

/-- The commands of `ProcessPipelineTask`. -/
def ops : List LaneOp :=
  (if task.hasWork then task.prefetchBatch tiling 0 else []) ++ [.waitReady task.slotId] ++
  (if task.hasWork then
    beginLoadKktSlot groupId task.slotId task.chunkLen.toNat task.rowStart.toNat
      task.rowCount.toNat ++ task.processHeadRange tiling
  else if task.willReuseSlot then [.setFree task.slotId] else [])

end PipelineTask

/-! ## A fused pair -/

/-- The scalars of `ProcessAdjacentFullChunkR34`. -/
structure ChunkPair where
  kPair : Bool
  firstHeadId : ℤ
  firstStart : ℤ
  secondStart : ℤ
  firstSlotId : ℕ
  secondSlotId : ℕ
  reuseFirstSlot : Bool
  reuseSecondSlot : Bool
  deriving Repr, DecidableEq

def adjacentFullChunk (offsets : ChunkOffsets) (kPair : Bool)
    (firstChunkId firstHeadId localRound localTaskCount : ℤ) : ChunkPair where
  kPair := kPair
  firstHeadId := firstHeadId
  firstStart := offsets.getValue firstChunkId
  secondStart := offsets.getValue (firstChunkId + 1)
  firstSlotId := (slotIdOf localRound).toNat
  secondSlotId := (slotIdOf (i32 (localRound + 1))).toNat
  reuseFirstSlot := localRound + SLOT_COUNT < localTaskCount
  reuseSecondSlot := i32 (localRound + 1) + SLOT_COUNT < localTaskCount

namespace ChunkPair

variable (t : ℤ) (groupId : ℕ) (pair : ChunkPair)

/-- `kHeadCount` -/
def kHeadCount : ℕ := if pair.kPair then 2 else 1

/-- The work on one of the two chunks, for the output tensors from `out0` and `out1`. -/
def chunkOps (start : ℤ) (slotId : ℕ) (reuse : Bool) (out0 out1 : ℕ) : List LaneOp :=
  prefetchGateAndBetaBatch pair.firstHeadId start 64 pair.kHeadCount ++ [.waitReady slotId] ++
  beginLoadKktSlot groupId slotId 64 0 64 ++
  [.queue .gate .deQue, .queue .beta .deQue] ++
  (if pair.kPair then prepareHeadPairFactor 64 64 out0 out1
    else prepareHeadFactor 64 0 64 out0) ++
  completeKktLoadAndReleaseSlot slotId reuse ++
  [.vector (.mul ⟨.output, out0⟩ ⟨.kkt, 0⟩ ⟨.output, out0⟩ 4096)] ++
  (if pair.kPair then [.vector (.mul ⟨.output, out1⟩ ⟨.kkt, 0⟩ ⟨.output, out1⟩ 4096)] else []) ++
  [.queue .gate .freeTensor, .queue .beta .freeTensor]

/-- Chunk 0, with the allocation of the output. -/
def firstOps : List LaneOp :=
  [.acquireOutputSlot, .allocOutput] ++
  pair.chunkOps groupId pair.firstStart pair.firstSlotId pair.reuseFirstSlot 0 (2 * 4096)

/-- Chunk 1, with the queueing of the output. -/
def secondOps : List LaneOp :=
  pair.chunkOps groupId pair.secondStart pair.secondSlotId pair.reuseSecondSlot 4096 (3 * 4096) ++
  [.enQueOutput,
   .queueOutput (queueDelayedChunkPairOutput t pair.firstHeadId pair.firstStart pair.kHeadCount)]

end ChunkPair

/-! ## A lane's program -/

/-- What a lane runs for one or two rounds. -/
inductive LaneItem
  | single (task : PipelineTask)
  | pair (chunks : ChunkPair)
  deriving Repr, DecidableEq

/-- The scalars of a call; the fuse test alone has no commands. -/
def LaneCall.items (tiling : ChunkScaledDotKktTilingData) (offsets : ChunkOffsets) :
    LaneCall → List LaneItem
  | .canFuse _ => []
  | .pipelineTask taskId _ aivLane localRound willReuseSlot =>
      [.single (VectorStage.pipelineTask tiling offsets taskId aivLane localRound willReuseSlot)]
  | .adjacentFullChunk kPair firstChunkId firstHeadId _ localRound localTaskCount =>
      [.pair (VectorStage.adjacentFullChunk offsets kPair firstChunkId firstHeadId localRound
        localTaskCount)]

/-- The commands of an item, one list for each of its rounds. -/
def LaneItem.parts (tiling : ChunkScaledDotKktTilingData) (groupId : ℕ) :
    LaneItem → List (List LaneOp)
  | .single task => [task.ops tiling groupId]
  | .pair chunks => [chunks.firstOps groupId, chunks.secondOps tiling.t groupId]

/-- `Process`: all items, then the last launch and the drain. -/
def laneOps (tiling : ChunkScaledDotKktTilingData) (groupId : ℕ) (items : List LaneItem) :
    List LaneOp :=
  (items.flatMap (LaneItem.parts tiling groupId)).flatten ++
  [.launchReadyOutput, .drainAllOutputSlots]

end VectorStage

end ChunkScaledDotKkt
