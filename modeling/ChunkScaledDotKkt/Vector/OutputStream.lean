import ChunkScaledDotKkt.Vector.Stage
import Mathlib.Data.List.Basic
import Mathlib.Logic.Function.Basic

/-!
# The output stream of a lane

A finished batch stays in VECOUT and is copied out from inside the factor stage of the
next batch.  Two buffers, a queue of depth one, one record of the batch that is ready,
two physical slots with a busy mask and one MTE3 event each keep track of it.

The scalar state is stepped by the commands of the lane's program.  A queue
operation or a wait that the hardware could not serve is an error.  Over the state
stands the ownership of the two buffers: each is in flight in a slot, enqueued, in
work, or free.

## Main results

* `OutputStream.Represents` — the scalar state represents an ownership; one lemma per
  operation.
* `OutputStream.Represents.alloc`, `enQue`, `launched`, `retire_busy` — what an operation
  does to the ownership.
-/

namespace ChunkScaledDotKkt

namespace VectorStage

/-- What the stream did, in program order.  A flag is set or waited for on an event id,
which it names next to the slot it serves. -/
inductive OutputEvent
  | allocTensor (buffer : Bool)
  | enQue (buffer : Bool)
  | queueDelayed (slotId : ℕ) (output : OutputRecord)
  | launch (slotId : ℕ) (buffer : Bool) (output : OutputRecord)
  | setFlag (slotId event : ℕ)
  | waitFlag (slotId event : ℕ)
  | freeTensor (slotId : ℕ) (buffer : Bool)
  deriving Repr, DecidableEq

/-- Operations that cannot be served: no free buffer, a full queue, an empty queue, a
wait without a set, a buffer that is not in use. -/
inductive OutputError
  | allocTensor
  | enQue
  | deQue
  | waitFlag
  | freeTensor
  deriving Repr, DecidableEq

/-- The event ids that the pipe hands out, and its choice of a free buffer.  Nothing here
says that the two ids differ: a result about the flags of one id asks for it. -/
structure OutputEnv where
  outputSlotEvent0 : ℕ
  outputSlotEvent1 : ℕ
  pick : (Bool → Bool) → Bool
  pick_free : ∀ (inUse : Bool → Bool) b, inUse b = false → inUse (pick inUse) = false

/-- The members of the stage that the stream uses, its queue and its events. -/
structure OutputStream where
  outputSlotBusyMask : BitVec 32
  nextOutputSlot : ℕ
  readyOutputValid : Bool
  readyOutputSlotId : ℕ
  readyOutput : OutputRecord
  outputSlot0 : Option Bool
  outputSlot1 : Option Bool
  /-- `outputSlotId` and the tensor of the batch in work -/
  outputSlotId : ℕ
  output : Option Bool
  /-- the buffers of `outputQueue_` that are not free, and the enqueued one -/
  inUse : Bool → Bool
  enqueued : Option Bool
  /-- sets of an MTE3 event that have not been waited for -/
  pending : ℕ → ℕ
  log : List OutputEvent

namespace OutputStream

variable (env : OutputEnv) (s : OutputStream)

/-- After `Init`. -/
def init : OutputStream where
  outputSlotBusyMask := 0
  nextOutputSlot := 0
  readyOutputValid := false
  readyOutputSlotId := 0
  readyOutput := ⟨false, false, 0, 0, 0⟩
  outputSlot0 := none
  outputSlot1 := none
  outputSlotId := 0
  output := none
  inUse _ := false
  enqueued := none
  pending _ := 0
  log := []

end OutputStream

/-- `OutputSlotEvent` -/
def OutputEnv.outputSlotEvent (env : OutputEnv) (slotId : ℕ) : ℕ :=
  if slotId = 0 then env.outputSlotEvent0 else env.outputSlotEvent1

namespace OutputStream

variable (env : OutputEnv) (s : OutputStream)

def slotBit (slotId : ℕ) : BitVec 32 := 1#32 <<< slotId

/-- `WaitFlag<HardEvent::MTE3_S>(OutputSlotEvent(slotId))` -/
def waitFlag (slotId : ℕ) : Except OutputError OutputStream :=
  let event := env.outputSlotEvent slotId
  if s.pending event = 0 then .error .waitFlag
  else .ok { s with
    pending := Function.update s.pending event (s.pending event - 1)
    log := s.log ++ [.waitFlag slotId event] }

def freeOutputSlot (slotId : ℕ) : Except OutputError OutputStream :=
  match if slotId = 0 then s.outputSlot0 else s.outputSlot1 with
  | none => .error .freeTensor
  | some buffer =>
      if s.inUse buffer then
        .ok { s with
          inUse := Function.update s.inUse buffer false
          outputSlotBusyMask := s.outputSlotBusyMask &&& ~~~ slotBit slotId
          log := s.log ++ [.freeTensor slotId buffer] }
      else .error .freeTensor

/-- Wait for a slot and free it, if it is busy. -/
def retireOutputSlot (slotId : ℕ) : Except OutputError OutputStream :=
  if s.outputSlotBusyMask &&& slotBit slotId ≠ 0 then do
    let s ← s.waitFlag env slotId
    s.freeOutputSlot slotId
  else .ok s

def acquireOutputSlot : Except OutputError OutputStream := do
  let slotId := s.nextOutputSlot
  let s ← s.retireOutputSlot env slotId
  return { s with nextOutputSlot := s.nextOutputSlot ^^^ 1, outputSlotId := slotId }

/-- `outputQueue_.AllocTensor` -/
def allocTensor : Except OutputError OutputStream :=
  if s.inUse false && s.inUse true then .error .allocTensor
  else
    let buffer := env.pick s.inUse
    .ok { s with
      inUse := Function.update s.inUse buffer true
      output := some buffer
      log := s.log ++ [.allocTensor buffer] }

/-- `outputQueue_.EnQue` -/
def enQue : Except OutputError OutputStream :=
  match s.output, s.enqueued with
  | some buffer, none =>
      .ok { s with enqueued := some buffer, output := none, log := s.log ++ [.enQue buffer] }
  | _, _ => .error .enQue

/-- `QueueDelayed…Output` -/
def queueDelayedOutput (output : OutputRecord) : OutputStream :=
  { s with
    readyOutputSlotId := s.outputSlotId
    readyOutput := output
    readyOutputValid := true
    log := s.log ++ [.queueDelayed s.outputSlotId output] }

def launchReadyOutput : Except OutputError OutputStream :=
  if s.readyOutputValid then
    let slotId := s.readyOutputSlotId
    match s.enqueued with
    | none => .error .deQue
    | some buffer =>
        let event := env.outputSlotEvent slotId
        .ok { s with
          enqueued := none
          outputSlot0 := if slotId = 0 then some buffer else s.outputSlot0
          outputSlot1 := if slotId = 0 then s.outputSlot1 else some buffer
          pending := Function.update s.pending event (s.pending event + 1)
          outputSlotBusyMask := s.outputSlotBusyMask ||| slotBit slotId
          readyOutputValid := false
          readyOutput := { s.readyOutput with isPair := false, isChunkPair := false }
          log := s.log ++ [.launch slotId buffer s.readyOutput, .setFlag slotId event] }
  else .ok s

def drainAllOutputSlots : Except OutputError OutputStream := do
  let s ← s.retireOutputSlot env 0
  s.retireOutputSlot env 1

end OutputStream


end VectorStage

open VectorStage

/-- The commands that belong to the output stream. -/
def LaneOp.isOutput : LaneOp → Bool
  | .acquireOutputSlot => true
  | .allocOutput => true
  | .launchReadyOutput => true
  | .enQueOutput => true
  | .queueOutput _ => true
  | .drainAllOutputSlots => true
  | _ => false

/-- The effect of a command on the output stream. -/
def LaneOp.stream (env : OutputEnv) (op : LaneOp) (s : OutputStream) :
    Except OutputError OutputStream :=
  match op with
  | .acquireOutputSlot => s.acquireOutputSlot env
  | .allocOutput => s.allocTensor env
  | .launchReadyOutput => s.launchReadyOutput env
  | .enQueOutput => s.enQue
  | .queueOutput output => .ok (s.queueDelayedOutput output)
  | .drainAllOutputSlots => s.drainAllOutputSlots env
  | _ => .ok s

namespace VectorStage

/-- The output stream after a list of commands. -/
def runStream (env : OutputEnv) (ops : List LaneOp) (s : OutputStream) :
    Except OutputError OutputStream :=
  ops.foldlM (fun s op => op.stream env s) s

section

variable {env : OutputEnv} {s s' : OutputStream}

@[simp] theorem runStream_nil : runStream env [] s = .ok s := rfl

@[simp] theorem runStream_cons (op : LaneOp) (ops : List LaneOp) :
    runStream env (op :: ops) s = op.stream env s >>= runStream env ops := rfl

theorem runStream_append (ops ops' : List LaneOp) :
    runStream env (ops ++ ops') s = runStream env ops s >>= runStream env ops' := by
  simp [runStream]
  rfl

/-- Commands outside the stream can be left out. -/
theorem runStream_filter (ops : List LaneOp) :
    runStream env (ops.filter LaneOp.isOutput) s = runStream env ops s := by
  induction ops generalizing s with
  | nil => rfl
  | cons op ops ih =>
      cases hop : op.isOutput with
      | true =>
          rw [List.filter_cons_of_pos hop, runStream_cons, runStream_cons]
          cases op.stream env s with
          | error e => rfl
          | ok s' => exact ih
      | false =>
          rw [List.filter_cons_of_neg (by simp [hop]), runStream_cons]
          have hstay : op.stream env s = .ok s := by
            cases op <;> first | rfl | cases hop
          rw [hstay]
          exact ih

end

/-! ## Who owns the buffers -/

/-- The buffers that are not free: in flight from a slot, enqueued, or in work. -/
structure Ownership where
  flying0 : Option Bool
  flying1 : Option Bool
  enqueued : Option Bool
  own : Option Bool
  deriving Repr, DecidableEq

namespace Ownership

def empty : Ownership := ⟨none, none, none, none⟩

/-- The buffer in flight from a slot. -/
def flying (o : Ownership) (slotId : ℕ) : Option Bool :=
  if slotId = 0 then o.flying0 else o.flying1

def owned (o : Ownership) : List Bool :=
  o.flying0.toList ++ o.flying1.toList ++ o.enqueued.toList ++ o.own.toList

/-- Put a buffer in flight or take it back. -/
def setFlying (o : Ownership) (slotId : ℕ) (buffer : Option Bool) : Ownership :=
  if slotId = 0 then { o with flying0 := buffer } else { o with flying1 := buffer }

variable {o : Ownership} {slotId : ℕ} {b : Bool}

theorem owned_setFlying (o : Ownership) (slotId : ℕ) (b : Bool) :
    (o.setFlying slotId (some b)).owned.Perm (b :: (o.setFlying slotId none).owned) := by
  by_cases h : slotId = 0
  · simp [setFlying, h, owned]
  · simp [setFlying, h, owned, List.perm_middle]

theorem owned_enqueued (o : Ownership) (b : Bool) :
    ({ o with enqueued := some b } : Ownership).owned.Perm
      (b :: ({ o with enqueued := none } : Ownership).owned) := by
  have h : (o.flying0.toList ++ o.flying1.toList ++ b :: o.own.toList).Perm
      (b :: (o.flying0.toList ++ o.flying1.toList ++ o.own.toList)) := List.perm_middle
  simpa [owned] using h

theorem owned_own (o : Ownership) (b : Bool) :
    ({ o with own := some b } : Ownership).owned.Perm
      (b :: ({ o with own := none } : Ownership).owned) := by
  have h := List.perm_append_singleton b
    (o.flying0.toList ++ o.flying1.toList ++ o.enqueued.toList)
  simpa [owned] using h

theorem setFlying_flying (h : o.flying slotId = some b) : o.setFlying slotId (some b) = o := by
  by_cases hk : slotId = 0 <;> simp [flying, setFlying, hk] at h ⊢ <;> rw [← h]

theorem setFlying_none (h : o.flying slotId = none) : o.setFlying slotId none = o := by
  by_cases hk : slotId = 0 <;> simp [flying, setFlying, hk] at h ⊢ <;> rw [← h]

/-- The enqueued buffer goes in flight from a slot. -/
def launch (o : Ownership) (slotId : ℕ) : Ownership :=
  { o with enqueued := none }.setFlying slotId o.enqueued

theorem owned_launch (hf : o.flying slotId = none) (he : o.enqueued = some b) :
    (o.launch slotId).owned.Perm o.owned := by
  have hout : ({ o with enqueued := none } : Ownership).flying slotId = none := hf
  have hin : ({ o with enqueued := some b } : Ownership) = o := by rw [← he]
  have hperm := owned_setFlying { o with enqueued := none } slotId b
  have hback := owned_enqueued o b
  rw [setFlying_none hout] at hperm
  rw [hin] at hback
  rw [launch, he]
  exact hperm.trans hback.symm

end Ownership

/-- The scalar state represents an ownership in which no buffer has two owners. -/
structure OutputStream.Represents (env : OutputEnv) (s : OutputStream) (o : Ownership) :
    Prop where
  nodup : o.owned.Nodup
  inUse : ∀ b, s.inUse b = true ↔ b ∈ o.owned
  mask : s.outputSlotBusyMask =
    (if o.flying0.isSome then 1#32 else 0) ||| (if o.flying1.isSome then 2#32 else 0)
  slot0 : ∀ b, o.flying0 = some b → s.outputSlot0 = some b
  slot1 : ∀ b, o.flying1 = some b → s.outputSlot1 = some b
  enqueued : s.enqueued = o.enqueued
  output : s.output = o.own
  pending : ∀ e, s.pending e =
    (if o.flying0.isSome ∧ env.outputSlotEvent0 = e then 1 else 0) +
      (if o.flying1.isSome ∧ env.outputSlotEvent1 = e then 1 else 0)

namespace OutputStream

variable {env : OutputEnv} {s : OutputStream} {o : Ownership}

theorem represents_init : init.Represents env .empty where
  nodup := by decide
  inUse b := by simp [init, Ownership.owned, Ownership.empty]
  mask := rfl
  slot0 b h := by cases h
  slot1 b h := by cases h
  enqueued := rfl
  output := rfl
  pending e := by simp [init, Ownership.empty]

/-- The busy bit of a slot tells whether a buffer is in flight from it. -/
theorem Represents.busy (h : s.Represents env o) {slotId : ℕ} (hk : slotId < 2) :
    s.outputSlotBusyMask &&& slotBit slotId ≠ 0 ↔ (o.flying slotId).isSome := by
  rw [h.mask]
  obtain rfl | rfl : slotId = 0 ∨ slotId = 1 := by omega
  · cases h0 : o.flying0 <;> cases h1 : o.flying1 <;> simp [Ownership.flying, h0] <;> decide
  · cases h0 : o.flying0 <;> cases h1 : o.flying1 <;> simp [Ownership.flying, h1] <;> decide

/-- The scalars that say what comes next and what is ready. -/
def control (s : OutputStream) : ℕ × Bool × ℕ × OutputRecord × ℕ :=
  (s.nextOutputSlot, s.readyOutputValid, s.readyOutputSlotId, s.readyOutput, s.outputSlotId)

/-- A slot that is not busy is left alone. -/
theorem Represents.retire_idle (h : s.Represents env o) {slotId : ℕ} (hk : slotId < 2)
    (hf : o.flying slotId = none) : s.retireOutputSlot env slotId = .ok s := by
  have hidle : ¬ s.outputSlotBusyMask &&& slotBit slotId ≠ 0 := by
    rw [h.busy hk, hf]
    simp
  rw [retireOutputSlot, if_neg hidle]

/-- The state after waiting for a slot and freeing its buffer. -/
def retired (env : OutputEnv) (s : OutputStream) (slotId : ℕ) (b : Bool) : OutputStream :=
  { s with
    inUse := Function.update s.inUse b false
    outputSlotBusyMask := s.outputSlotBusyMask &&& ~~~ slotBit slotId
    pending := Function.update s.pending (env.outputSlotEvent slotId)
      (s.pending (env.outputSlotEvent slotId) - 1)
    log := s.log ++ [.waitFlag slotId (env.outputSlotEvent slotId), .freeTensor slotId b] }

/-- A busy slot is waited for and its buffer freed. -/
theorem Represents.retire_busy (h : s.Represents env o) {slotId : ℕ} (hk : slotId < 2) {b : Bool}
    (hf : o.flying slotId = some b) :
    ∃ s', s.retireOutputSlot env slotId = .ok s' ∧
      s'.Represents env (o.setFlying slotId none) ∧ s'.control = s.control ∧
      s'.log = s.log ++
        [.waitFlag slotId (env.outputSlotEvent slotId), .freeTensor slotId b] := by
  have hbusy : s.outputSlotBusyMask &&& slotBit slotId ≠ 0 := by
    rw [h.busy hk, hf]
    simp
  have hpend : s.pending (env.outputSlotEvent slotId) ≠ 0 := by
    rw [h.pending]
    obtain rfl | rfl : slotId = 0 ∨ slotId = 1 := by omega
    · simp [Ownership.flying] at hf
      simp [OutputEnv.outputSlotEvent, hf]
    · simp [Ownership.flying] at hf
      simp [OutputEnv.outputSlotEvent, hf]
  have hslot : (if slotId = 0 then s.outputSlot0 else s.outputSlot1) = some b := by
    obtain rfl | rfl : slotId = 0 ∨ slotId = 1 := by omega
    · exact h.slot0 b hf
    · exact h.slot1 b hf
  have hperm := Ownership.owned_setFlying o slotId b
  rw [Ownership.setFlying_flying hf] at hperm
  have huse : s.inUse b = true := by
    rw [h.inUse, hperm.mem_iff]
    simp
  have hnodup := hperm.nodup_iff.mp h.nodup
  rw [List.nodup_cons] at hnodup
  refine ⟨s.retired env slotId b, ?_, ?_, rfl, rfl⟩
  · rw [retireOutputSlot, if_pos hbusy, waitFlag]
    simp [hpend, bind, Except.bind, freeOutputSlot, hslot, huse, retired]
  · constructor
    · exact hnodup.2
    · intro x
      by_cases hx : x = b
      · simp [retired, hx, hnodup.1]
      · simp [retired, h.inUse, hperm.mem_iff, hx]
    · rw [retired, h.mask]
      obtain rfl | rfl : slotId = 0 ∨ slotId = 1 := by omega
      · cases h1 : o.flying1 <;> cases h0 : o.flying0 <;>
          simp [Ownership.setFlying, h1, slotBit]
      · cases h1 : o.flying1 <;> cases h0 : o.flying0 <;>
          simp [Ownership.setFlying, h0, slotBit]
    · intro x hx
      by_cases h0 : slotId = 0 <;> simp [Ownership.setFlying, h0] at hx
      exact h.slot0 x hx
    · intro x hx
      by_cases h0 : slotId = 0 <;> simp [Ownership.setFlying, h0] at hx
      exact h.slot1 x hx
    · rw [Ownership.setFlying]
      split <;> exact h.enqueued
    · rw [Ownership.setFlying]
      split <;> exact h.output
    · intro e
      have he := h.pending e
      simp only [retired, Function.update_apply]
      obtain rfl | rfl : slotId = 0 ∨ slotId = 1 := by omega
      · simp only [Ownership.flying, if_true] at hf
        simp only [Ownership.setFlying, OutputEnv.outputSlotEvent, if_true]
        by_cases heq : e = env.outputSlotEvent0
        · subst heq
          simp [he, hf]
        · simp [heq, he, Ne.symm heq]
      · simp only [Ownership.flying, Nat.one_ne_zero, if_false] at hf
        simp only [Ownership.setFlying, OutputEnv.outputSlotEvent, Nat.one_ne_zero, if_false]
        by_cases heq : e = env.outputSlotEvent1
        · subst heq
          simp [he, hf]
        · simp [heq, he, Ne.symm heq]

/-- Nothing is launched when nothing is ready. -/
theorem launch_idle (hv : s.readyOutputValid = false) : s.launchReadyOutput env = .ok s := by
  simp [launchReadyOutput, hv]

/-- The state after the enqueued buffer is launched from a slot. -/
def launched (env : OutputEnv) (s : OutputStream) (slotId : ℕ) (b : Bool) : OutputStream :=
  { s with
    enqueued := none
    outputSlot0 := if slotId = 0 then some b else s.outputSlot0
    outputSlot1 := if slotId = 0 then s.outputSlot1 else some b
    pending := Function.update s.pending (env.outputSlotEvent slotId)
      (s.pending (env.outputSlotEvent slotId) + 1)
    outputSlotBusyMask := s.outputSlotBusyMask ||| slotBit slotId
    readyOutputValid := false
    readyOutput := { s.readyOutput with isPair := false, isChunkPair := false }
    log := s.log ++
      [.launch slotId b s.readyOutput, .setFlag slotId (env.outputSlotEvent slotId)] }

theorem launch_eq {slotId : ℕ} {b : Bool} (hv : s.readyOutputValid = true)
    (hslot : s.readyOutputSlotId = slotId) (he : s.enqueued = some b) :
    s.launchReadyOutput env = .ok (s.launched env slotId b) := by
  simp [launchReadyOutput, hv, hslot, he, launched]

/-- A launch from a free slot hands the enqueued buffer over to the slot. -/
theorem Represents.launched (h : s.Represents env o) {slotId : ℕ} (hk : slotId < 2) {b : Bool}
    (he : o.enqueued = some b) (hf : o.flying slotId = none) :
    (s.launched env slotId b).Represents env (o.launch slotId) := by
  have hperm := Ownership.owned_launch hf he
  constructor
  · exact hperm.nodup_iff.mpr h.nodup
  · intro x
    rw [hperm.mem_iff]
    exact h.inUse x
  · rw [OutputStream.launched, h.mask]
    obtain rfl | rfl : slotId = 0 ∨ slotId = 1 := by omega
    · cases h1 : o.flying1 <;> cases h0 : o.flying0 <;>
        simp [Ownership.launch, Ownership.setFlying, he, h1, slotBit]
    · cases h1 : o.flying1 <;> cases h0 : o.flying0 <;>
        simp [Ownership.launch, Ownership.setFlying, he, h0, slotBit]
  · intro x hx
    by_cases h0 : slotId = 0 <;>
      simp [Ownership.launch, Ownership.setFlying, OutputStream.launched, he, h0] at hx ⊢
    · exact hx
    · exact h.slot0 x hx
  · intro x hx
    by_cases h0 : slotId = 0 <;>
      simp [Ownership.launch, Ownership.setFlying, OutputStream.launched, he, h0] at hx ⊢
    · exact h.slot1 x hx
    · exact hx
  · rw [Ownership.launch, Ownership.setFlying]
    split <;> rfl
  · rw [Ownership.launch, Ownership.setFlying]
    split <;> exact h.output
  · intro e
    have hpend := h.pending e
    simp only [OutputStream.launched, Function.update_apply, Ownership.launch, he]
    obtain rfl | rfl : slotId = 0 ∨ slotId = 1 := by omega
    · simp only [Ownership.flying, if_true] at hf
      simp only [Ownership.setFlying, OutputEnv.outputSlotEvent, if_true]
      by_cases heq : e = env.outputSlotEvent0
      · subst heq
        simp [hpend, hf, Nat.add_comm]
      · simp [heq, hpend, hf, Ne.symm heq]
    · simp only [Ownership.flying, Nat.one_ne_zero, if_false] at hf
      simp only [Ownership.setFlying, OutputEnv.outputSlotEvent, Nat.one_ne_zero, if_false]
      by_cases heq : e = env.outputSlotEvent1
      · subst heq
        simp [hpend, hf]
      · simp [heq, hpend, hf, Ne.symm heq]

/-- The state after the allocation of a buffer. -/
def allocated (s : OutputStream) (b : Bool) : OutputStream :=
  { s with
    inUse := Function.update s.inUse b true
    output := some b
    log := s.log ++ [.allocTensor b] }

/-- An allocation succeeds while at most one buffer has an owner, and yields another. -/
theorem Represents.alloc (h : s.Represents env o) (hown : o.own = none)
    (hone : o.owned.length ≤ 1) :
    ∃ b, b ∉ o.owned ∧ s.allocTensor env = .ok (s.allocated b) ∧
      (s.allocated b).Represents env { o with own := some b } := by
  have hfree : ∃ b, s.inUse b = false := by
    by_contra hnone
    have hboth : ∀ b, b ∈ o.owned := by
      intro b
      rw [← h.inUse]
      exact eq_true_of_ne_false fun hb => hnone ⟨b, hb⟩
    match howned : o.owned, hone with
    | [], _ => simpa [howned] using hboth true
    | [x], _ => simpa [howned] using hboth !x
  obtain ⟨b0, hb0⟩ := hfree
  have hpick := env.pick_free s.inUse b0 hb0
  have hnew : env.pick s.inUse ∉ o.owned := by
    rw [← h.inUse, hpick]
    simp
  have hguard : (s.inUse false && s.inUse true) = false := by
    cases b0 <;> simp [hb0]
  have hself : ({ o with own := none } : Ownership) = o := by rw [← hown]
  have hperm := Ownership.owned_own o (env.pick s.inUse)
  rw [hself] at hperm
  refine ⟨env.pick s.inUse, hnew, ?_, ?_⟩
  · simp [allocTensor, hguard, allocated]
  · constructor
    · rw [hperm.nodup_iff, List.nodup_cons]
      exact ⟨hnew, h.nodup⟩
    · intro x
      rw [hperm.mem_iff, List.mem_cons, ← h.inUse]
      by_cases hx : x = env.pick s.inUse
      · simp [allocated, ← hx]
      · simp [allocated, hx]
    · exact h.mask
    · exact h.slot0
    · exact h.slot1
    · exact h.enqueued
    · rfl
    · exact h.pending

/-- The state after the buffer in work is enqueued. -/
def enqueuedWith (s : OutputStream) (b : Bool) : OutputStream :=
  { s with enqueued := some b, output := none, log := s.log ++ [.enQue b] }

/-- The queue takes the buffer in work when it is empty. -/
theorem Represents.enQue (h : s.Represents env o) {b : Bool} (hown : o.own = some b)
    (he : o.enqueued = none) :
    s.enQue = .ok (s.enqueuedWith b) ∧
      (s.enqueuedWith b).Represents env { o with enqueued := some b, own := none } := by
  have hperm : ({ o with enqueued := some b, own := none } : Ownership).owned.Perm o.owned := by
    simp [Ownership.owned, hown, he]
  constructor
  · simp [OutputStream.enQue, h.output, h.enqueued, hown, he, enqueuedWith]
  · constructor
    · exact hperm.nodup_iff.mpr h.nodup
    · intro x
      rw [hperm.mem_iff]
      exact h.inUse x
    · exact h.mask
    · exact h.slot0
    · exact h.slot1
    · rfl
    · rfl
    · exact h.pending

/-- Scalars that the ownership does not see. -/
theorem Represents.of_control (h : s.Represents env o) {next slotId readySlot : ℕ} {valid : Bool}
    {output : OutputRecord} {log : List OutputEvent} :
    OutputStream.Represents env { s with
      nextOutputSlot := next
      readyOutputValid := valid
      readyOutputSlotId := readySlot
      readyOutput := output
      outputSlotId := slotId
      log := log } o :=
  ⟨h.nodup, h.inUse, h.mask, h.slot0, h.slot1, h.enqueued, h.output, h.pending⟩

end OutputStream

end VectorStage

end ChunkScaledDotKkt
