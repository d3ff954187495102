import ChunkScaledDotKkt.Lib.MachineInt

/-!
# Tiling data and the host tiling function

The host reads the four input shapes, rejects what the kernel does not support and
writes the tiling data the device reads: the task count, `T`, `Hg`, the number of
MIX groups and the heads per KV head.  Every other host effect (schedule mode,
tiling key, workspace size) is part of the output.

Host integers are 64-bit and modelled by `ℤ`; the two fields that the device keeps
in 32 bits are narrowed by `i32`, as the source casts them.
-/

namespace ChunkScaledDotKkt

open MachineInt

/-- Values consumed directly by the device kernel. -/
structure ChunkScaledDotKktTilingData where
  /-- `numChunks * hg` -/
  totalTaskCount : ℤ
  t : ℤ
  hg : ℤ
  /-- AIC groups; the launch has twice as many AIVs. -/
  blockDim : ℤ
  /-- `H / Hg` -/
  numRepeat : ℤ
  deriving Repr, DecidableEq

/-- The template argument selected by the tiling key: the K extent of the kernel. -/
inductive KMode
  | k128
  | k256
  deriving Repr, DecidableEq

namespace Optiling

/-- What the host sees of the operator call: the four storage shapes, the platform,
and whether the runtime's setters succeed. -/
structure TilingContext where
  kShape : Option (List ℤ)
  betaShape : Option (List ℤ)
  gShape : Option (List ℤ)
  offsetShape : Option (List ℤ)
  platformInfo : Bool
  coreNumAic : UInt32
  libApiWorkSpaceSize : UInt32
  tilingData : Bool
  setScheduleMode : Bool
  setBlockDim : Bool
  workspaceSizes : Bool

/-- A failed tiling call: a null pointer, or a failed check with its log text. -/
inductive TilingError
  | null (name : String)
  | check (message : String)
  deriving Repr, DecidableEq

/-- `OP_CHECK_IF(cond, OP_LOGE(message), return GRAPH_FAILED)`. -/
def opCheckIf (cond : Bool) (message : String) : Except TilingError Unit :=
  if cond then .error (.check message) else .ok ()

/-- `OP_CHECK_NULL_WITH_CONTEXT` on a pointer that is null when `present` is false. -/
def opCheckNull (present : Bool) (name : String) : Except TilingError Unit :=
  if present then .ok () else .error (.null name)

/-- The sizes the tiling function reads from the shapes. -/
structure ShapeInfo where
  t : ℤ
  h : ℤ
  hg : ℤ
  kDim : ℤ
  numChunks : ℤ
  deriving Repr, DecidableEq

def B_SUPPORTED : ℤ := 1
def K_128 : ℤ := 128
def K_256 : ℤ := 256

/-- `Shape::GetDim` -/
def getDim (shape : List ℤ) (i : ℕ) : ℤ := shape.getD i 0

/-- The shape checks, in the order of the source. -/
def validateAndReadShape (context : TilingContext) : Except TilingError ShapeInfo := do
  opCheckNull context.kShape.isSome "kStorage"
  opCheckNull context.betaShape.isSome "betaStorage"
  opCheckNull context.gShape.isSome "gStorage"
  opCheckNull context.offsetShape.isSome "offsetStorage"
  let kShape := context.kShape.getD []
  let betaShape := context.betaShape.getD []
  let gShape := context.gShape.getD []
  let offsetShape := context.offsetShape.getD []
  opCheckIf (kShape.length ≠ 4) "k must be rank-4 [B,T,Hg,K]"
  opCheckIf (betaShape.length ≠ 3 || gShape.length ≠ 3)
    "beta and g_cumsum must be rank-3 [B,H,T]"
  opCheckIf (offsetShape.length ≠ 1) "chunk_offsets must be rank-1"
  let b := getDim kShape 0
  let t := getDim kShape 1
  let hg := getDim kShape 2
  let kDim := getDim kShape 3
  let h := getDim betaShape 1
  opCheckIf (b ≠ B_SUPPORTED) s!"Only B=1 is supported, but got {b}"
  opCheckIf (t ≤ 0 || h ≤ 0 || hg ≤ 0) "T, H and Hg must be positive"
  opCheckIf (kDim ≠ K_128 && kDim ≠ K_256) s!"K must be 128 or 256, but got {kDim}"
  opCheckIf (h.tmod hg ≠ 0) s!"Hg must divide H, H={h} Hg={hg}"
  opCheckIf (getDim betaShape 0 ≠ b || getDim betaShape 2 ≠ t) "beta shape must be [B,H,T]"
  opCheckIf (getDim gShape 0 ≠ b || getDim gShape 1 ≠ h || getDim gShape 2 ≠ t)
    "g_cumsum shape must match beta"
  let offsetCount := getDim offsetShape 0
  opCheckIf (offsetCount < 2) "chunk_offsets must contain at least two values"
  return { t, h, hg, kDim, numChunks := offsetCount - 1 }

/-! ## The tiling function -/

def SLOT_COUNT : ℤ := 2
def KKT_SLOT_BYTES : ℤ := 64 * 64 * 4
def DEFAULT_CHUNK_SIZE : ℤ := 64
def CHAMP_WORKSPACE_SLOT_COUNT : ℤ := 4
def CHAMP_MANUAL_MIX_CORE_COUNT : ℤ := 20
def CHAMP_GROUP_ALIGNED_CORE_COUNT : ℤ := 16
def CHAMP_DEEP_PIPELINE_TASKS_PER_CORE : ℤ := 20
def CHAMP_SMALL_TASK_MAX : ℤ := 32
def CHAMP_SHORT_MANUAL_TASK_MAX : ℤ := 256
def CHAMP_MEDIUM_TASK_MAX : ℤ := 512
def CHAMP_SMALL_TASK_BLOCK_DIM : ℤ := 8

/-- The number of MIX groups the assignment policy asks for, before the clamp to
the platform's AIC count. -/
def selectBlockDim (shape : ShapeInfo) (aicNum : ℤ) : ℤ :=
  let totalTaskCount := shape.numChunks * shape.hg
  let headPerGroup := shape.h.tdiv shape.hg
  let allChunksFull := shape.t = shape.numChunks * DEFAULT_CHUNK_SIZE
  let defaultBlockDim := max 1 (min aicNum totalTaskCount)
  let shallowManualTaskMin := CHAMP_MANUAL_MIX_CORE_COUNT * CHAMP_WORKSPACE_SLOT_COUNT
  let deepManualTaskMax := CHAMP_MANUAL_MIX_CORE_COUNT * CHAMP_DEEP_PIPELINE_TASKS_PER_CORE
  let useFullAlignedGh2K256Hpg4BlockDim :=
    shape.hg = 2 ∧ shape.kDim = K_256 ∧ headPerGroup = 4 ∧
      totalTaskCount > shallowManualTaskMin ∧ totalTaskCount ≤ deepManualTaskMax ∧
      allChunksFull
  let useGroupAlignedBlockDim :=
    (shape.hg = CHAMP_GROUP_ALIGNED_CORE_COUNT ∧ shape.kDim = K_128 ∧
      (headPerGroup = 3 ∨ headPerGroup = 4) ∧
      totalTaskCount > shallowManualTaskMin ∧ totalTaskCount ≤ deepManualTaskMax) ∨
    (shape.hg = 8 ∧ shape.kDim = K_128 ∧ headPerGroup = 4 ∧
      totalTaskCount > shallowManualTaskMin ∧
      totalTaskCount ≤ CHAMP_SHORT_MANUAL_TASK_MAX) ∨
    (shape.hg = 2 ∧ shape.kDim = K_128 ∧ headPerGroup = 4 ∧
      totalTaskCount > deepManualTaskMax ∧ totalTaskCount ≤ CHAMP_MEDIUM_TASK_MAX ∧
      ¬ allChunksFull)
  if totalTaskCount ≤ CHAMP_SMALL_TASK_MAX then CHAMP_SMALL_TASK_BLOCK_DIM
  else if useFullAlignedGh2K256Hpg4BlockDim ∨ useGroupAlignedBlockDim then
    CHAMP_GROUP_ALIGNED_CORE_COUNT
  else defaultBlockDim

/-- Everything a successful tiling call sets. -/
structure TilingOutput where
  tiling : ChunkScaledDotKktTilingData
  scheduleMode : ℤ
  tilingKey : KMode
  workspaceSize : ℤ
  deriving Repr, DecidableEq

def chunkScaledDotKktTilingFunc (context : TilingContext) : Except TilingError TilingOutput := do
  opCheckNull context.platformInfo "platformInfo"
  let aicNum : ℤ := context.coreNumAic.toNat
  opCheckIf (aicNum ≤ 0) "AIC core number must be positive"
  let shape ← validateAndReadShape context
  opCheckNull context.tilingData "tiling"
  let totalTaskCount := shape.numChunks * shape.hg
  let selectedBlockDim := selectBlockDim shape aicNum
  let blockDim := i32 (max 1 (min aicNum selectedBlockDim))
  let tiling : ChunkScaledDotKktTilingData :=
    { totalTaskCount, t := shape.t, hg := shape.hg, blockDim,
      numRepeat := i32 (shape.h.tdiv shape.hg) }
  opCheckIf (!context.setScheduleMode) "Set batch schedule mode failed"
  opCheckIf (!context.setBlockDim) s!"Set blockDim failed, blockDim={blockDim}"
  let sysWorkspace : ℤ := context.libApiWorkSpaceSize.toNat
  let userWorkspace := u64 (u64 blockDim * SLOT_COUNT * KKT_SLOT_BYTES)
  opCheckNull context.workspaceSizes "workspaceSizes"
  return { tiling, scheduleMode := 1,
           tilingKey := if shape.kDim = K_128 then .k128 else .k256,
           workspaceSize := u64 (sysWorkspace + userWorkspace) }

/-! ## What an accepted call guarantees -/

theorem bind_eq_ok {α β : Type} {x : Except TilingError α} {f : α → Except TilingError β}
    {b : β} : x >>= f = .ok b ↔ ∃ a, x = .ok a ∧ f a = .ok b := by
  cases x <;> simp [bind, Except.bind]

theorem opCheckIf_eq_ok {cond : Bool} {message : String} {u : Unit} :
    opCheckIf cond message = .ok u ↔ cond = false := by
  cases cond <;> simp [opCheckIf]

theorem opCheckNull_eq_ok {present : Bool} {name : String} {u : Unit} :
    opCheckNull present name = .ok u ↔ present = true := by
  cases present <;> simp [opCheckNull]

/-- The facts about the sizes that the shape checks establish. -/
structure ShapeInfo.Accepted (shape : ShapeInfo) : Prop where
  t_pos : 0 < shape.t
  h_pos : 0 < shape.h
  hg_pos : 0 < shape.hg
  kDim_mem : shape.kDim = K_128 ∨ shape.kDim = K_256
  hg_dvd : shape.hg ∣ shape.h
  numChunks_pos : 0 < shape.numChunks

/-- Shapes that pass the checks are accepted shapes. -/
theorem validateAndReadShape_accepted {context : TilingContext} {shape : ShapeInfo}
    (h : validateAndReadShape context = .ok shape) : shape.Accepted := by
  unfold validateAndReadShape at h
  simp only [bind_eq_ok, opCheckIf_eq_ok, opCheckNull_eq_ok, pure, Except.pure, Except.ok.injEq,
    exists_and_left, exists_const, Bool.or_eq_false_iff, Bool.and_eq_false_imp,
    decide_eq_false_iff_not, decide_eq_true_eq, Int.not_le, Int.not_lt, ne_eq,
    Decidable.not_not] at h
  obtain ⟨-, -, -, -, -, -, -, -, ⟨⟨ht, hh⟩, hhg⟩, hk, hdvd, -, -, hn, rfl⟩ := h
  refine ⟨ht, hh, hhg, ?_, Int.dvd_of_tmod_eq_zero hdvd, ?_⟩
  · exact Classical.or_iff_not_imp_left.mpr hk
  · change 0 < _ - 1
    omega

/-- The tiling data of a successful call, from the shape and the AIC count. -/
def tilingOf (shape : ShapeInfo) (aicNum : ℤ) : ChunkScaledDotKktTilingData where
  totalTaskCount := shape.numChunks * shape.hg
  t := shape.t
  hg := shape.hg
  blockDim := i32 (max 1 (min aicNum (selectBlockDim shape aicNum)))
  numRepeat := i32 (shape.h.tdiv shape.hg)

/-- A successful call has read an accepted shape and a positive AIC count, and
writes the tiling data of these two. -/
theorem chunkScaledDotKktTilingFunc_ok {context : TilingContext} {out : TilingOutput}
    (h : chunkScaledDotKktTilingFunc context = .ok out) :
    ∃ shape, validateAndReadShape context = .ok shape ∧ 0 < context.coreNumAic.toNat ∧
      out.tiling = tilingOf shape context.coreNumAic.toNat := by
  unfold chunkScaledDotKktTilingFunc at h
  simp only [bind_eq_ok, opCheckIf_eq_ok, opCheckNull_eq_ok, pure, Except.pure, Except.ok.injEq,
    exists_and_left, exists_const, decide_eq_false_iff_not, Int.not_le] at h
  obtain ⟨-, haic, shape, hshape, -, -, -, -, rfl⟩ := h
  exact ⟨shape, hshape, by exact_mod_cast haic, rfl⟩

end Optiling

end ChunkScaledDotKkt
