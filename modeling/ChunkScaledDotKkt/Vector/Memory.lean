import ChunkScaledDotKkt.Lib.VectorUnit
import ChunkScaledDotKkt.Vector.Stage

/-!
# A lane's tensors

The UB tensors of a lane and the effect of its commands on them, in exact arithmetic
over any ordered ring with an exponential.  A VECIN queue holds at most one enqueued
tensor: enqueueing and dequeueing pass the contents of the filled tensor on to the
one in use.
-/

namespace ChunkScaledDotKkt

open MachineInt Buffer VectorUnit

/-- The tensors of a lane. -/
structure LaneMemory (F : Type) where
  f32 : UbBuf → ℕ → F
  mask : MaskBuf → ℕ → Bool

namespace LaneMemory

variable {F : Type} (m : LaneMemory F)

/-- The elements of a tensor reference. -/
def read (ref : UbRef) : ℕ → F := slice ref.off (m.f32 ref.buf)

def readMask (ref : MaskRef) : ℕ → Bool := slice ref.off (m.mask ref.buf)

/-- Apply an instruction to a tensor reference. -/
def write (ref : UbRef) (f : (ℕ → F) → ℕ → F) : LaneMemory F :=
  { m with f32 := Function.update m.f32 ref.buf (into ref.off f (m.f32 ref.buf)) }

def writeMask (ref : MaskRef) (f : (ℕ → Bool) → ℕ → Bool) : LaneMemory F :=
  { m with mask := Function.update m.mask ref.buf (into ref.off f (m.mask ref.buf)) }

end LaneMemory

/-- What the lane reads from global memory, and the exponential of its vector unit. -/
structure LaneEnv (F : Type) where
  t : ℤ
  gGm : ℕ → F
  betaGm : ℕ → F
  kktWorkspace : ℕ → F
  exp : F → F

/-- The elements in a block of a queue's type. -/
def QueueId.perBlock : QueueId → ℕ
  | .gate => 8
  | .beta => 16

def QueueId.buf : QueueId → QueueSlot → UbBuf
  | .gate => .gate
  | .beta => .beta

def QueueId.gm {F : Type} (id : QueueId) (env : LaneEnv F) : ℕ → F :=
  match id with
  | .gate => env.gGm
  | .beta => env.betaGm

namespace VectorStage

variable {F : Type}

/-- The strides of the batched copy of gate (8 elements a block) or beta (16), for full
chunks and for tails. -/
def gateOrBetaParams (perBlock : ℕ) (t : ℤ) (chunkLen batchHeads : ℕ) : DataCopyExtParams :=
  let size := 32 / perBlock
  let alignedElems := (chunkLen + (perBlock - 1)) / perBlock * perBlock
  { blockCount := (u16 batchHeads).toNat
    blockLen := (u32 (chunkLen * size : ℕ)).toNat
    srcStride := (u32 ((t - chunkLen) * size)).toNat
    dstStride := if chunkLen = 64 then 0 else (u32 ((64 - alignedElems) / perBlock : ℕ)).toNat }

def gateOrBetaPad [Zero F] (perBlock chunkLen : ℕ) : DataCopyPadExtParams F :=
  let alignedElems := (chunkLen + (perBlock - 1)) / perBlock * perBlock
  { isPad := chunkLen ≠ 64
    leftPadding := 0
    rightPadding := if chunkLen = 64 then 0 else (u8 (alignedElems - chunkLen : ℕ)).toNat
    paddingValue := 0 }

/-- The copy of gate or beta for one or two heads. -/
def copyGateOrBeta [Zero F] (perBlock : ℕ) (t : ℤ) (chunkLen batchHeads : ℕ)
    (src dst : ℕ → F) : ℕ → F :=
  if chunkLen = 64 ∧ batchHeads = 1 then dataCopy src 64 dst
  else dataCopyPad perBlock (gateOrBetaParams perBlock t chunkLen batchHeads)
    (gateOrBetaPad perBlock chunkLen) src dst

/-- The copy of the KKT rows of a lane. -/
def copyKkt [Zero F] (chunkLen rowCount : ℕ) (src dst : ℕ → F) : ℕ → F :=
  if chunkLen = 64 then dataCopy src (u32 (rowCount * 64 : ℕ)).toNat dst
  else
    let alignedRowElems := (chunkLen + 7) / 8 * 8
    dataCopyPad 8
      { blockCount := (u16 rowCount).toNat
        blockLen := (u32 (chunkLen * 4 : ℕ)).toNat
        srcStride := (u32 ((64 - chunkLen) * 4 : ℕ)).toNat
        dstStride := (u32 ((64 - alignedRowElems) / 8 : ℕ)).toNat }
      { isPad := true
        leftPadding := 0
        rightPadding := (u8 (alignedRowElems - chunkLen : ℕ)).toNat
        paddingValue := 0 } src dst

/-- Strides of the row-wise compare. -/
def compareRows : BinaryRepeatParams := ⟨1, 0, 1, 1, 1, 0⟩

end VectorStage

open VectorStage

variable {F : Type} [CommRing F] [LinearOrder F]

def VectorInstr.act (exp : F → F) (instr : VectorInstr) (m : LaneMemory F) : LaneMemory F :=
  match instr with
  | .duplicateZero dst n => m.write dst (duplicate 0 n)
  | .mulsNegOne dst src n => m.write dst (muls (m.read src) (-1) n)
  | .brcb dst src repeats => m.write dst (VectorUnit.brcb (m.read src) repeats 1 8)
  | .compareLT dst src0 src1 repeats =>
      m.writeMask dst (VectorUnit.compareLT (m.read src0) (m.read src1) 64 repeats compareRows)
  | .exp dst src n => m.write dst (unary exp (m.read src) n)
  | .cast dst src n => m.write dst (unary id (m.read src) n)
  | .mul dst src0 src1 n => m.write dst (VectorUnit.mul (m.read src0) (m.read src1) n)
  | .mulRows dst src0 src1 repeats =>
      m.write dst (mulRepeat (m.read src0) (m.read src1) 64 repeats ⟨1, 1, 0, 8, 0, 1⟩)
  | .select dst mask src n =>
      m.write dst (VectorUnit.select (m.readMask mask) (m.read src) 0 n)

/-- The effect of a command on the lane's tensors. -/
def LaneOp.act (env : LaneEnv F) (op : LaneOp) (m : LaneMemory F) : LaneMemory F :=
  match op with
  | .queue id .enQue =>
      { m with f32 := Function.update m.f32 (id.buf .queued) (m.f32 (id.buf .fresh)) }
  | .queue id .deQue =>
      { m with f32 := Function.update m.f32 (id.buf .current) (m.f32 (id.buf .queued)) }
  | .copyGateOrBeta id firstHeadId start chunkLen batchHeads =>
      let src := slice (firstHeadId * env.t + start).toNat (id.gm env)
      m.write ⟨id.buf .fresh, 0⟩
        (VectorStage.copyGateOrBeta id.perBlock env.t chunkLen batchHeads src)
  | .copyKkt groupId slotId chunkLen rowStart rowCount =>
      let src := slice (PackedGramMmadCubeStage.slotOffset groupId slotId + rowStart * 64)
        env.kktWorkspace
      m.write ⟨.kkt, 0⟩ (VectorStage.copyKkt chunkLen rowCount src)
  | .vector instr => instr.act env.exp m
  | _ => m

/-- The lane's tensors after a list of commands. -/
def runLane (env : LaneEnv F) (ops : List LaneOp) (m : LaneMemory F) : LaneMemory F :=
  ops.foldl (fun m op => op.act env m) m

end ChunkScaledDotKkt
