import ChunkScaledDotKkt.Lib.TensorQueue
import ChunkScaledDotKkt.Vector.Protocol

/-!
# The loads of a lane

Gate and beta are prefetched one batch ahead through queues of depth one over two
buffers; the KKT tile of a round is loaded into a single tensor.  The state of the loads
is stepped by the commands of the lane's program.  An operation that would wait for the
lane itself is `none`, and so is an access to the KKT tensor at the wrong time.

## Main results

* `LoadState.Bounded.run` — a program that runs keeps the queues within their depth and
  their buffers.
-/

namespace ChunkScaledDotKkt

namespace VectorStage

/-- The operands of a prefetch. -/
structure Prefetch where
  firstHeadId : ℤ
  start : ℤ
  chunkLen : ℕ
  batchHeads : ℕ
  deriving Repr, DecidableEq

/-- The operands of a KKT load. -/
structure KktLoad where
  slotId : ℕ
  copy : KktCopy
  deriving Repr, DecidableEq

/-- The single KKT tensor. -/
inductive KktTile
  | empty
  | loading (load : KktLoad)
  | loaded (load : KktLoad)
  deriving Repr, DecidableEq

/-- What the loads did, in program order. -/
inductive LoadEvent
  | prefetch (id : QueueId) (batch : Prefetch)
  | deQue (id : QueueId) (batch : Prefetch)
  | beginLoad (load : KktLoad)
  | completeLoad (load : KktLoad)
  | readKkt (load : KktLoad)
  | setFree (slotId : ℕ)
  deriving Repr, DecidableEq

/-- `gQueue_`, `betaQueue_` and the KKT tensor. -/
structure LoadState where
  gate : TensorQueue Prefetch
  beta : TensorQueue Prefetch
  kkt : KktTile
  log : List LoadEvent
  deriving Repr, DecidableEq

/-- The depth of the input queues and their buffers. -/
def INPUT_QUEUE_DEPTH : ℕ := 1
def INPUT_BUFFER_NUM : ℕ := 2

namespace LoadState

def init : LoadState := ⟨.empty, .empty, .empty, []⟩

def inQueue (s : LoadState) : QueueId → TensorQueue Prefetch
  | .gate => s.gate
  | .beta => s.beta

def setInQueue (s : LoadState) (id : QueueId) (q : TensorQueue Prefetch) : LoadState :=
  match id with
  | .gate => { s with gate := q }
  | .beta => { s with beta := q }

def record (s : LoadState) (event : LoadEvent) : LoadState := { s with log := s.log ++ [event] }

/-- Neither queue exceeds its depth or its buffers. -/
structure Bounded (s : LoadState) : Prop where
  gate : s.gate.Bounded INPUT_QUEUE_DEPTH INPUT_BUFFER_NUM
  beta : s.beta.Bounded INPUT_QUEUE_DEPTH INPUT_BUFFER_NUM

end LoadState

end VectorStage

open VectorStage

/-- The tensors an instruction reads. -/
def VectorInstr.sources : VectorInstr → List UbRef
  | .duplicateZero _ _ => []
  | .mulsNegOne _ src _ | .brcb _ src _ | .exp _ src _ | .cast _ src _ | .select _ _ src _ => [src]
  | .compareLT _ src0 src1 _ | .mul _ src0 src1 _ | .mulRows _ src0 src1 _ => [src0, src1]

/-- The tensors it writes. -/
def VectorInstr.destinations : VectorInstr → List UbRef
  | .duplicateZero dst _ | .mulsNegOne dst _ _ | .brcb dst _ _ | .exp dst _ _ | .cast dst _ _
  | .mul dst _ _ _ | .mulRows dst _ _ _ | .select dst _ _ _ => [dst]
  | .compareLT _ _ _ _ => []

def VectorInstr.readsKkt (instr : VectorInstr) : Bool :=
  instr.sources.any fun ref => ref.buf = .kkt

def VectorInstr.writesKkt (instr : VectorInstr) : Bool :=
  instr.destinations.any fun ref => ref.buf = .kkt

namespace VectorStage

namespace LoadState

variable (s : LoadState)

/-- `AllocTensor`, `EnQue`, `DeQue` and `FreeTensor` of a queue. -/
def queueOp (id : QueueId) : QueueOp → Option LoadState
  | .allocTensor => ((s.inQueue id).allocTensor INPUT_BUFFER_NUM).map (s.setInQueue id)
  | .enQue => ((s.inQueue id).enQue INPUT_QUEUE_DEPTH).map (s.setInQueue id)
  | .deQue => (s.inQueue id).deQue.map fun (batch, q) =>
      (s.setInQueue id q).record (.deQue id batch)
  | .freeTensor => (s.inQueue id).freeTensor.map (s.setInQueue id)

/-- The copy of a batch into the allocated tensor. -/
def copyBatch (id : QueueId) (batch : Prefetch) : Option LoadState :=
  ((s.inQueue id).fill batch).map fun q => (s.setInQueue id q).record (.prefetch id batch)

/-- The copy of a KKT tile begins, unless one is in flight. -/
def beginLoad (load : KktLoad) : Option LoadState :=
  match s.kkt with
  | .loading _ => none
  | _ => some ({ s with kkt := .loading load }.record (.beginLoad load))

/-- The wait for the tile in flight. -/
def completeLoad : Option LoadState :=
  match s.kkt with
  | .loading load => some ({ s with kkt := .loaded load }.record (.completeLoad load))
  | _ => none

/-- A vector read of the tile. -/
def readKkt : Option LoadState :=
  match s.kkt with
  | .loaded load => some (s.record (.readKkt load))
  | _ => none

/-- A vector write to the tile: the zeroes under a tail, before its copy. -/
def writeKkt : Option LoadState :=
  match s.kkt with
  | .loading _ => none
  | _ => some s

end LoadState

end VectorStage

/-- The commands that belong to the loads. -/
def LaneOp.isLoad : LaneOp → Bool
  | .queue _ _ => true
  | .copyGateOrBeta _ _ _ _ _ => true
  | .copyKkt _ _ _ _ _ => true
  | .waitFlag .mte2_v => true
  | .setFree _ => true
  | .vector instr => instr.readsKkt || instr.writesKkt
  | _ => false

/-- The effect of a command on the loads. -/
def LaneOp.load (op : LaneOp) (s : LoadState) : Option LoadState :=
  match op with
  | .queue id op => s.queueOp id op
  | .copyGateOrBeta id firstHeadId start chunkLen batchHeads =>
      s.copyBatch id ⟨firstHeadId, start, chunkLen, batchHeads⟩
  | .copyKkt _ slotId chunkLen rowStart rowCount =>
      s.beginLoad ⟨slotId, chunkLen, rowStart, rowCount⟩
  | .waitFlag .mte2_v => s.completeLoad
  | .setFree slotId => some (s.record (.setFree slotId))
  | .vector instr =>
      if instr.readsKkt then s.readKkt else if instr.writesKkt then s.writeKkt else some s
  | _ => some s

namespace VectorStage

/-- The loads after a list of commands. -/
def runLoads (ops : List LaneOp) (s : LoadState) : Option LoadState :=
  ops.foldlM (fun s op => op.load s) s

section

variable {s s' : LoadState}

@[simp] theorem runLoads_nil : runLoads [] s = some s := rfl

@[simp] theorem runLoads_cons (op : LaneOp) (ops : List LaneOp) :
    runLoads (op :: ops) s = (op.load s).bind (runLoads ops) := rfl

theorem runLoads_append (ops ops' : List LaneOp) :
    runLoads (ops ++ ops') s = (runLoads ops s).bind (runLoads ops') := by
  simp [runLoads]
  rfl

/-- Commands outside the loads can be left out. -/
theorem runLoads_filter (ops : List LaneOp) :
    runLoads (ops.filter LaneOp.isLoad) s = runLoads ops s := by
  induction ops generalizing s with
  | nil => rfl
  | cons op ops ih =>
      cases hop : op.isLoad with
      | true =>
          rw [List.filter_cons_of_pos hop, runLoads_cons, runLoads_cons]
          cases op.load s with
          | none => rfl
          | some s' => exact ih
      | false =>
          have hstay : op.load s = some s := by
            cases op with
            | vector instr =>
                simp only [LaneOp.isLoad, Bool.or_eq_false_iff] at hop
                simp [LaneOp.load, hop]
            | waitFlag event => cases event <;> first | rfl | cases hop
            | _ => first | rfl | cases hop
          rw [List.filter_cons_of_neg (by simp [hop]), runLoads_cons, hstay]
          exact ih

/-! ## Capacity -/

theorem LoadState.Bounded.inQueue (h : s.Bounded) (id : QueueId) :
    (s.inQueue id).Bounded INPUT_QUEUE_DEPTH INPUT_BUFFER_NUM := by
  cases id with
  | gate => exact h.gate
  | beta => exact h.beta

theorem LoadState.Bounded.setInQueue (h : s.Bounded) {id : QueueId} {q : TensorQueue Prefetch}
    (hq : q.Bounded INPUT_QUEUE_DEPTH INPUT_BUFFER_NUM) : (s.setInQueue id q).Bounded := by
  cases id with
  | gate => exact ⟨hq, h.beta⟩
  | beta => exact ⟨h.gate, hq⟩

theorem LoadState.Bounded.of_queues (h : s.Bounded) (hgate : s'.gate = s.gate)
    (hbeta : s'.beta = s.beta) : s'.Bounded :=
  ⟨hgate ▸ h.gate, hbeta ▸ h.beta⟩

theorem LoadState.Bounded.queueOp (h : s.Bounded) {id : QueueId} {op : QueueOp}
    (hop : s.queueOp id op = some s') : s'.Bounded := by
  have hq := h.inQueue id
  cases op with
  | allocTensor =>
      obtain ⟨q, halloc, rfl⟩ := Option.map_eq_some_iff.mp hop
      exact h.setInQueue (hq.allocTensor halloc)
  | enQue =>
      obtain ⟨q, henQue, rfl⟩ := Option.map_eq_some_iff.mp hop
      exact h.setInQueue (hq.enQue henQue)
  | deQue =>
      obtain ⟨⟨batch, q⟩, hdeQue, rfl⟩ := Option.map_eq_some_iff.mp hop
      exact (h.setInQueue (hq.deQue hdeQue)).of_queues rfl rfl
  | freeTensor =>
      obtain ⟨q, hfree, rfl⟩ := Option.map_eq_some_iff.mp hop
      exact h.setInQueue (hq.freeTensor hfree)

/-- The KKT tensor is outside both queues. -/
theorem LoadState.Bounded.kktOp (h : s.Bounded)
    (hop : (∃ load, s.beginLoad load = some s') ∨ s.completeLoad = some s' ∨ s.readKkt = some s' ∨
      s.writeKkt = some s') : s'.Bounded := by
  apply h.of_queues
  all_goals
    simp only [LoadState.beginLoad, LoadState.completeLoad, LoadState.readKkt,
      LoadState.writeKkt] at hop
    cases hkkt : s.kkt <;> simp [hkkt] at hop <;> grind [LoadState.record]

/-- A command that is served keeps both queues within their sizes. -/
theorem LoadState.Bounded.step (h : s.Bounded) {op : LaneOp} (hop : op.load s = some s') :
    s'.Bounded := by
  cases op with
  | queue id op => exact h.queueOp hop
  | copyGateOrBeta id firstHeadId start chunkLen batchHeads =>
      obtain ⟨q, hfill, rfl⟩ := Option.map_eq_some_iff.mp hop
      exact (h.setInQueue ((h.inQueue id).fill hfill)).of_queues rfl rfl
  | copyKkt groupId slotId chunkLen rowStart rowCount => exact h.kktOp (Or.inl ⟨_, hop⟩)
  | waitFlag event =>
      cases event with
      | mte2_v => exact h.kktOp (Or.inr (Or.inl hop))
      | _ => cases hop; exact h
  | setFree slotId =>
      cases hop
      exact h.of_queues rfl rfl
  | vector instr =>
      simp only [LaneOp.load] at hop
      split at hop
      · exact h.kktOp (Or.inr (Or.inr (Or.inl hop)))
      · split at hop
        · exact h.kktOp (Or.inr (Or.inr (Or.inr hop)))
        · cases hop; exact h
  | _ => cases hop; exact h

/-- Every part of a program that runs leaves the queues within their sizes. -/
theorem LoadState.Bounded.run (h : s.Bounded) {ops : List LaneOp}
    (hrun : runLoads ops s = some s') : s'.Bounded := by
  induction ops generalizing s with
  | nil =>
      cases hrun
      exact h
  | cons op ops ih =>
      rw [runLoads_cons] at hrun
      cases hop : op.load s with
      | none => simp [hop] at hrun
      | some s1 => exact ih (h.step hop) (by simpa [hop] using hrun)

end

end VectorStage

end ChunkScaledDotKkt
