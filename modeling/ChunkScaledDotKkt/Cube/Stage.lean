import ChunkScaledDotKkt.Lib.CubeUnit
import ChunkScaledDotKkt.Walk

/-!
# The cube stages

The AIC commands of `PackedGramMmadCubeStageK128` and `PackedGramMmadCubeStageK256` in
program order: for each task the packed copy of K into L1, the K-parts of the Gram
product, and the copy of the result to a workspace slot, with every event set and
wait of the source.

`AicOp.act` is the effect of a command on the on-chip buffers and the workspace.
Events and cross-core flags do not touch these; they are given their meaning in
`System`.
-/

namespace ChunkScaledDotKkt

open MachineInt Buffer CubeUnit

/-- Pairs of pipes that an event orders, the setter's first. -/
inductive HardEvent
  | mte1_mte2
  | mte2_mte1
  | mte1_m
  | m_mte1
  | m_fix
  | fix_m
  | v_mte2
  | mte2_v
  deriving Repr, DecidableEq

/-- The event ids in use. -/
inductive EventId
  | id0
  | id1
  | id2
  | id3
  deriving Repr, DecidableEq

/-- `K_DIM` -/
def KMode.kDim : KMode → ℕ
  | .k128 => 128
  | .k256 => 256

/-- `K_PARTS` -/
def KMode.kParts : KMode → ℕ
  | .k128 => 2
  | .k256 => 4

/-- A command issued by the AIC's scalar unit. -/
inductive AicOp
  | setFlag (event : HardEvent) (id : EventId)
  | waitFlag (event : HardEvent) (id : EventId)
  | clearSharedL1
  | copyOnePackedOperand
  | loadKPartToL0A (stage kPart : ℕ)
  | loadKPartToL0B (stage kPart block : ℕ)
  | mmad (stage kPart : ℕ) (initializeC : Bool)
  | commitWorkspace (slotId : ℕ)
  | waitFree (slotId : ℕ)
  | setReady (slotId : ℕ)
  | pipeBarrierAll
  deriving Repr, DecidableEq

namespace PackedGramMmadCubeStage

/-! ## Commands of one task -/

def SHARED_L1_EVENT : EventId := .id0
def MTE1_TO_M_EVENT : EventId := .id0
def CO1_EVENT : EventId := .id0
def TASK_L0_DRAIN_EVENT : EventId := .id0

/-- The commands of `CopyPackedKToSharedL1`; `tail` says `chunkLen < M`. -/
def copyPackedKToSharedL1 (tail : Bool) : List AicOp :=
  [.waitFlag .mte1_mte2 SHARED_L1_EVENT] ++
  (if tail then [.clearSharedL1] else []) ++
  [.copyOnePackedOperand, .setFlag .mte2_mte1 SHARED_L1_EVENT]

def loadKPartToL0B (stage kPart : ℕ) : List AicOp :=
  [.loadKPartToL0B stage kPart 0, .loadKPartToL0B stage kPart 1,
   .loadKPartToL0B stage kPart 2, .loadKPartToL0B stage kPart 3]

end PackedGramMmadCubeStage

namespace PackedGramMmadCubeStageK128

open PackedGramMmadCubeStage

/-- `L0_A_EVENT0`, `L0_A_EVENT1` -/
def aL0Event (stage : ℕ) : EventId := if stage = 0 then .id0 else .id1

/-- `L0_B_EVENT0`, `L0_B_EVENT1` -/
def bL0Event (stage : ℕ) : EventId := if stage = 0 then .id2 else .id3

def computeOneKPart (kPart : ℕ) : List AicOp :=
  let stage := kPart % 2
  [.waitFlag .m_mte1 (aL0Event stage)] ++
  (if kPart = 0 then [.waitFlag .mte2_mte1 SHARED_L1_EVENT] else []) ++
  [.loadKPartToL0A stage kPart, .waitFlag .m_mte1 (bL0Event stage)] ++
  loadKPartToL0B stage kPart ++
  (if kPart + 1 = KMode.k128.kParts then [.setFlag .mte1_mte2 SHARED_L1_EVENT] else []) ++
  [.setFlag .mte1_m MTE1_TO_M_EVENT, .waitFlag .mte1_m MTE1_TO_M_EVENT,
   .mmad stage kPart (kPart = 0),
   .setFlag .m_mte1 (aL0Event stage), .setFlag .m_mte1 (bL0Event stage)]

def computeGram : List AicOp :=
  [.waitFlag .fix_m CO1_EVENT] ++ computeOneKPart 0 ++ computeOneKPart 1 ++
  [.setFlag .m_fix CO1_EVENT, .waitFlag .m_fix CO1_EVENT]

def initL0Events : List AicOp :=
  [.setFlag .m_mte1 .id0, .setFlag .m_mte1 .id1, .setFlag .m_mte1 .id2, .setFlag .m_mte1 .id3]

def drainL0Events : List AicOp :=
  [.waitFlag .m_mte1 .id0, .waitFlag .m_mte1 .id1, .waitFlag .m_mte1 .id2,
   .waitFlag .m_mte1 .id3]

end PackedGramMmadCubeStageK128

namespace PackedGramMmadCubeStageK256

open PackedGramMmadCubeStage

def computePart (stage kPart : ℕ) (initializeC : Bool) : List AicOp :=
  [.loadKPartToL0A stage kPart] ++ loadKPartToL0B stage kPart ++
  [.setFlag .mte1_m MTE1_TO_M_EVENT, .waitFlag .mte1_m MTE1_TO_M_EVENT,
   .mmad stage kPart initializeC]

def computeGram : List AicOp :=
  [.waitFlag .fix_m CO1_EVENT, .waitFlag .mte2_mte1 SHARED_L1_EVENT] ++
  computePart 0 0 true ++ computePart 1 1 false ++ computePart 2 2 false ++
  computePart 3 3 false ++
  [.setFlag .mte1_mte2 SHARED_L1_EVENT,
   .setFlag .m_mte1 TASK_L0_DRAIN_EVENT, .waitFlag .m_mte1 TASK_L0_DRAIN_EVENT,
   .setFlag .m_fix CO1_EVENT, .waitFlag .m_fix CO1_EVENT]

end PackedGramMmadCubeStageK256

namespace PackedGramMmadCubeStage

def computeGram : KMode → List AicOp
  | .k128 => PackedGramMmadCubeStageK128.computeGram
  | .k256 => PackedGramMmadCubeStageK256.computeGram

/-- `InitL0Events`, in the K = 128 loop only. -/
def initL0Events : KMode → List AicOp
  | .k128 => PackedGramMmadCubeStageK128.initL0Events
  | .k256 => []

/-- `DrainL0Events`, in the K = 128 loop only. -/
def drainL0Events : KMode → List AicOp
  | .k128 => PackedGramMmadCubeStageK128.drainL0Events
  | .k256 => []

/-- One turn of the task loop: `reuse` says `localRound >= SLOT_COUNT`. -/
def taskOps (mode : KMode) (validChunk tail reuse : Bool) (slotId : ℕ) : List AicOp :=
  initL0Events mode ++
  (if validChunk then copyPackedKToSharedL1 tail ++ computeGram mode else []) ++
  (if reuse then [.waitFree slotId] else []) ++
  (if validChunk then [.commitWorkspace slotId] else []) ++
  [.setReady slotId] ++
  (if validChunk then [.setFlag .fix_m CO1_EVENT] else []) ++
  drainL0Events mode

def initPersistentEvents : List AicOp :=
  [.setFlag .mte1_mte2 SHARED_L1_EVENT, .setFlag .fix_m CO1_EVENT]

def drainPersistentEvents : List AicOp :=
  [.waitFlag .mte1_mte2 SHARED_L1_EVENT, .waitFlag .fix_m CO1_EVENT, .pipeBarrierAll]

end PackedGramMmadCubeStage

/-! ## Effects -/

/-- The buffers an AIC group works on.  L0A and L0B are split into their stages. -/
structure AicMemory (R : Type) where
  l1 : ℕ → R
  l0a : ℕ → ℕ → R
  l0b : ℕ → ℕ → R
  l0c : ℕ → R
  workspace : ℕ → R

/-- What one task of the loop works on. -/
structure AicTask where
  validChunk : Bool
  kOffset : ℤ
  chunkLen : ℤ
  deriving Repr, DecidableEq

/-- What all tasks of a group share: the stage, `tiling_->hg`, the group and `kGm_`. -/
structure CubeEnv (R : Type) where
  mode : KMode
  hg : ℤ
  groupId : ℕ
  kGm : ℕ → R

namespace PackedGramMmadCubeStage

/-- The task of a round as the loop reads it from the offsets. -/
def task (mode : KMode) (tiling : ChunkScaledDotKktTilingData) (offsets : ChunkOffsets)
    (r : Round) : AicTask where
  validChunk := isValidChunk mode tiling.t offsets r.chunkId
  kOffset := (offsets.getValue r.chunkId * tiling.hg + r.kvHeadId) * mode.kDim
  chunkLen := offsets.chunkLen r.chunkId

/-- The descriptor of `CopyOnePackedOperand`, with its casts to 16-bit fields. -/
def copyParams (mode : KMode) (hg chunkLen : ℤ) : Nd2NzParams where
  ndNum := 1
  nValue := (u16 chunkLen).toNat
  dValue := (u16 mode.kDim).toNat
  srcNdMatrixStride := 0
  srcDValue := (u16 (hg * mode.kDim)).toNat
  dstNzC0Stride := (u16 M).toNat
  dstNzNStride := 1
  dstNzMatrixStride := 0

/-- The parameters of `ClearSharedL1`. -/
def clearParams {R : Type} [Zero R] (mode : KMode) : InitConstValueParams R where
  repeatTimes := 1
  blockNum := (u16 ((64 * mode.kDim * 2 / 32 : ℕ) : ℤ)).toNat
  dstGap := 0
  initValue := 0

def K_STEP : ℕ := 64

def loadAParams : LoadData3DParamsV2 where
  l1H := 1
  l1W := 64
  channelSize := K_STEP
  kExtension := K_STEP
  mExtension := 64
  mStartPt := 0
  kStartPt := 0

def loadBParams : LoadData2DParams where
  startIndex := 0
  repeatTimes := (u8 4).toNat
  srcStride := 1
  dstGap := 0
  ifTranspose := false

/-- `N * FRACTAL_K` -/
def blockOffset : ℕ := 64 * 16

def mmadParams (initializeC : Bool) : MmadParams where
  m := 64
  n := 64
  k := K_STEP
  cmatrixInitVal := initializeC

def fixpipeParams : FixpipeParamsV220 where
  nSize := 64
  mSize := 64
  srcStride := 64
  dstStride := 64
  ndNum := 1
  srcNdStride := 0
  dstNdStride := 0

/-- `slotOffset` of a group's slot -/
def slotOffset (groupId slotId : ℕ) : ℕ := (groupId * 2 + slotId) * 4096

end PackedGramMmadCubeStage

open PackedGramMmadCubeStage

/-- The effect of a command on the buffers. -/
def AicOp.act {R : Type} [Semiring R] (env : CubeEnv R) (task : AicTask) (op : AicOp)
    (m : AicMemory R) : AicMemory R :=
  match op with
  | .clearSharedL1 => { m with l1 := initConstValue (clearParams env.mode) m.l1 }
  | .copyOnePackedOperand =>
      let src := slice task.kOffset.toNat env.kGm
      { m with l1 := nd2nz (copyParams env.mode env.hg task.chunkLen) src m.l1 }
  | .loadKPartToL0A stage kPart =>
      let src := slice (kPart * K_STEP * 64) m.l1
      { m with l0a := Function.update m.l0a stage (loadData3D loadAParams src (m.l0a stage)) }
  | .loadKPartToL0B stage kPart block =>
      let src := slice (kPart * K_STEP * 64 + block * blockOffset) m.l1
      let load := into (block * blockOffset) (loadData2D loadBParams src)
      { m with l0b := Function.update m.l0b stage (load (m.l0b stage)) }
  | .mmad stage _ initializeC =>
      { m with l0c := CubeUnit.mmad (mmadParams initializeC) (m.l0a stage) (m.l0b stage) m.l0c }
  | .commitWorkspace slotId =>
      let copy := into (slotOffset env.groupId slotId) (fixpipe fixpipeParams m.l0c)
      { m with workspace := copy m.workspace }
  | _ => m

/-- The buffers after a list of commands of one task. -/
def runOps {R : Type} [Semiring R] (env : CubeEnv R) (task : AicTask) (ops : List AicOp)
    (m : AicMemory R) : AicMemory R :=
  ops.foldl (fun m op => op.act env task m) m

end ChunkScaledDotKkt
