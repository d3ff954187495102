import ChunkScaledDotKkt.GroupRun
import ChunkScaledDotKkt.Lib.NetFamily

/-!
# The device

All groups of a launch over one global memory.  The AIC of a group runs its pipes ahead of
one another, as far as their events and the READY and FREE messages allow; a lane takes its
commands in program order.  The AIC writes tiles to the workspace, the lanes read them
there, and all lanes write to one output.

Any interleaving is, for a group, an interleaving of the group alone with a workspace of
its own, since the commands of a group touch no slots but the two of the group.

## Main definitions

* `DeviceMemory`, `Launch.deviceAct` — the memory and what a command does to it.
* `Launch.deviceStart` — all programs of a launch.

## Main results

* `Launch.device_views` — a group sees its own slots only.
* `Launch.group_kept` — what a group keeps in every interleaving of the device.
-/

namespace ChunkScaledDotKkt

open MachineInt Buffer CubeUnit VectorStage BlockCopy TokenNet LaneRun Command

variable {F : Type}

/-- The buffers of the AICs and of the lanes, the workspace and the output.  The fields for
the workspace and the output inside the former are not used. -/
structure DeviceMemory (F : Type) where
  aic : ℕ → AicMemory F
  lane : ℕ → Fin 2 → LaneRun F
  workspace : ℕ → F
  gm : ℤ → F

namespace DeviceMemory

variable (m : DeviceMemory F) (g : ℕ)

/-- What the AIC of a group works on. -/
def aicMemory : AicMemory F := { m.aic g with workspace := m.workspace }

/-- What a lane of a group works on. -/
def laneRun (lane : Fin 2) : LaneRun F := (m.lane g lane).onto m.gm

end DeviceMemory

namespace Launch

variable [CommRing F] [LinearOrder F] (L : Launch) (offsets : ChunkOffsets) (x : KernelInputs F)
  (mode : KMode)

/-- The effect of a command of a group; `stale g lane n` is what the `n`-th output tensor of a
lane holds when it is allocated. -/
def deviceAct (stale : ℕ → Fin 2 → ℕ → ℕ → F) (g : ℕ) (k : Command) (m : DeviceMemory F) :
    DeviceMemory F :=
  match k with
  | .aic r op =>
      let task := PackedGramMmadCubeStage.task mode L.tiling offsets
        (PackedGramMmadCubeStage.round L.tiling g r)
      let buffers := op.act (x.cubeEnv mode L.tiling.hg g) task (m.aicMemory g)
      { m with aic := Function.update m.aic g buffers, workspace := buffers.workspace }
  | .aiv lane _ op =>
      let run := op.run (x.laneEnv L.tiling.t m.workspace) (stale g lane) (m.laneRun g lane)
      { m with
        lane := Function.update m.lane g (Function.update (m.lane g) lane run)
        gm := run.machine.port.gm }

/-- The programs of a group, for the calls of its lanes. -/
def programs (calls : ℕ → Fin 2 → List LaneCall) (g : ℕ) : Party → List Command
  | .aic => L.aicCommands offsets mode g
  | .aiv lane => L.laneCommands offsets g lane (calls g lane)

/-- All groups at their start. -/
def deviceStart (calls : ℕ → Fin 2 → List LaneCall) (m : DeviceMemory F) :
    Family ℕ Party Command Flag (DeviceMemory F) where
  todo g := if g < L.groups then L.programs offsets mode calls g else fun _ => []
  tokens _ _ := 0
  mem := m

end Launch

/-- The lanes take their commands in order. -/
def inOrder (party : Party) : Prop := party ≠ .aic

/-! ## A group's part of the memory -/

/-- The AIC's buffers and the slots of its group are the same. -/
structure SameGroup (g : ℕ) (m m' : AicMemory F) : Prop where
  l1 : m.l1 = m'.l1
  l0a : m.l0a = m'.l0a
  l0b : m.l0b = m'.l0b
  l0c : m.l0c = m'.l0c
  workspace : ∀ a, PackedGramMmadCubeStage.slotOffset g 0 ≤ a →
    a < PackedGramMmadCubeStage.slotOffset (g + 1) 0 → m.workspace a = m'.workspace a

namespace SameGroup

/-- A slot holds the same tile. -/
theorem holdsGram [Semiring F] (env : SystemEnv F) {m m' : AicMemory F}
    (h : SameGroup env.cube.groupId m m') {r slotId : ℕ} (hslot : slotId < 2)
    (hgram : env.HoldsGram r slotId m') : env.HoldsGram r slotId m := by
  intro i hi j hj
  rw [← hgram i hi j hj]
  refine h.workspace _ ?_ ?_
  · simp only [PackedGramMmadCubeStage.slotOffset]
    omega
  · simp only [PackedGramMmadCubeStage.slotOffset]
    omega

/-- **A command of the AIC acts on its group's part alone.** -/
theorem act [Semiring F] {g : ℕ} {m m' : AicMemory F} (h : SameGroup g m m') (env : CubeEnv F)
    (task : AicTask) (op : AicOp) : SameGroup g (op.act env task m) (op.act env task m') := by
  obtain ⟨l1, l0a, l0b, l0c, workspace⟩ := m
  obtain ⟨l1', l0a', l0b', l0c', workspace'⟩ := m'
  obtain ⟨hl1, hl0a, hl0b, hl0c, hworkspace⟩ := h
  simp only at hl1 hl0a hl0b hl0c hworkspace
  subst hl1 hl0a hl0b hl0c
  cases op with
  | commitWorkspace slotId =>
      refine ⟨rfl, rfl, rfl, rfl, ?_⟩
      intro a hle hlt
      have hsame := hworkspace a hle hlt
      simp only [AicOp.act]
      by_cases hbefore : a < PackedGramMmadCubeStage.slotOffset env.groupId slotId
      · rw [into_lt hbefore, into_lt hbefore, hsame]
      · rw [into_of_le (by omega), into_of_le (by omega), fixpipe, fixpipe]
        refine scatter_congr_at ?_
        rw [slice, slice, Nat.add_sub_cancel' (by omega), hsame]
  | _ => exact ⟨rfl, rfl, rfl, rfl, hworkspace⟩

end SameGroup

/-- A command of the AIC changes the slots of its group alone. -/
theorem act_workspace_other [Semiring F] (env : CubeEnv F) {task : AicTask} {op : AicOp} {r : ℕ}
    (hslots : (Command.aic r op).InSlots env.groupId) (m : AicMemory F) {a : ℕ}
    (ha : a < PackedGramMmadCubeStage.slotOffset env.groupId 0 ∨
      PackedGramMmadCubeStage.slotOffset (env.groupId + 1) 0 ≤ a) :
    (op.act env task m).workspace a = m.workspace a := by
  cases op with
  | commitWorkspace slotId =>
      have hslot : slotId < 2 := hslots
      have hout : a < PackedGramMmadCubeStage.slotOffset env.groupId slotId ∨
          PackedGramMmadCubeStage.slotOffset env.groupId slotId + 4096 ≤ a := by
        rw [PackedGramMmadCubeStage.slotOffset, ← Nat.succ_mul]
        exact ha.imp (fun h => h.trans_le (Nat.mul_le_mul_right 4096 (by omega)))
          fun h => (Nat.mul_le_mul_right 4096 (by omega)).trans h
      exact into_outside (fun _ _ hi => fixpipe_outside hi) hout
  | _ => rfl

/-- The slots of two groups are apart. -/
theorem slots_apart {g g' a : ℕ} (hne : g' ≠ g)
    (hle : PackedGramMmadCubeStage.slotOffset g' 0 ≤ a)
    (hlt : a < PackedGramMmadCubeStage.slotOffset (g' + 1) 0) :
    a < PackedGramMmadCubeStage.slotOffset g 0 ∨
      PackedGramMmadCubeStage.slotOffset (g + 1) 0 ≤ a := by
  simp only [PackedGramMmadCubeStage.slotOffset] at hle hlt ⊢
  have hcases : g' < g ∨ g < g' := Nat.lt_or_gt_of_ne hne
  omega

namespace Launch

variable [CommRing F] [LinearOrder F] (L : Launch) (offsets : ChunkOffsets) (x : KernelInputs F)
  (mode : KMode) (stale : ℕ → Fin 2 → ℕ → ℕ → F)

/-- **A group sees its own slots only.** -/
theorem device_views : Family.Views (L.deviceAct offsets x mode stale)
    (fun g => Command.act (L.groupEnv offsets x mode g)) (fun g k => k.InSlots g)
    (fun g m m' => SameGroup g (m.aicMemory g) m') where
  own {g k m m'} hslots hrel := by
    cases k with
    | aic r op =>
        have hact := hrel.act (x.cubeEnv mode L.tiling.hg g)
          (PackedGramMmadCubeStage.task mode L.tiling offsets
            (PackedGramMmadCubeStage.round L.tiling g r)) op
        have hupdate : (L.deviceAct offsets x mode stale g (.aic r op) m).aicMemory g =
            op.act (x.cubeEnv mode L.tiling.hg g)
              (PackedGramMmadCubeStage.task mode L.tiling offsets
                (PackedGramMmadCubeStage.round L.tiling g r)) (m.aicMemory g) := by
          simp [deviceAct, DeviceMemory.aicMemory]
        rw [hupdate]
        exact hact
    | aiv lane r op => exact hrel
  other {g g' k m m'} hslots hne hrel := by
    cases k with
    | aic r op =>
        have haic : (L.deviceAct offsets x mode stale g (.aic r op) m).aic g' = m.aic g' := by
          simp [deviceAct, hne]
        obtain ⟨hl1, hl0a, hl0b, hl0c, hworkspace⟩ := hrel
        refine ⟨?_, ?_, ?_, ?_, ?_⟩
        · exact (congrArg AicMemory.l1 haic).trans hl1
        · exact (congrArg AicMemory.l0a haic).trans hl0a
        · exact (congrArg AicMemory.l0b haic).trans hl0b
        · exact (congrArg AicMemory.l0c haic).trans hl0c
        · intro a hle hlt
          rw [← hworkspace a hle hlt]
          exact act_workspace_other (x.cubeEnv mode L.tiling.hg g) hslots _
            (slots_apart hne hle hlt)
    | aiv lane r op => exact hrel

/-- The sizes of a launch fit the fields of the kernel: the tensors' addresses, the 16-bit
row stride of the packing copy, and the numbers of lanes and rounds. -/
structure Sized (L : Launch) (mode : KMode) : Prop where
  numRepeat_pos : 1 ≤ L.tiling.numRepeat
  t_lt : L.tiling.t < 1073741824
  stride_lt : L.tiling.hg * mode.kDim < 65536
  lanes_lt : 2 * L.groups < 2147483648
  rounds_lt : ∀ g < L.groups, L.count g < 2147483648

/-- The calls that the loops of all lanes make. -/
def Walks (L : Launch) (offsets : ChunkOffsets) (calls : ℕ → Fin 2 → List LaneCall) : Prop :=
  ∀ g < L.groups, ∀ lane : Fin 2, L.Trail offsets (L.reuse g) g lane 0 (calls g lane)

/-- **The loops of all lanes end.** -/
theorem exists_walks (L : Launch) (offsets : ChunkOffsets) :
    ∃ calls : ℕ → Fin 2 → List LaneCall, L.Walks offsets calls ∧
      ∀ g < L.groups, ∀ lane : Fin 2, ∀ fuel : ℕ, L.tiling.taskCount g < fuel →
        process L.tiling offsets (2 * g + lane : ℕ) fuel = some (calls g lane) := by
  have htrails : ∀ g, ∀ lane : Fin 2, ∃ calls, g < L.groups →
      (∀ fuel, L.count g < fuel → process L.tiling offsets (2 * g + lane : ℕ) fuel = some calls) ∧
        L.Trail offsets (L.reuse g) g lane 0 calls := by
    intro g lane
    by_cases hg : g < L.groups
    · obtain ⟨calls, h⟩ := L.process_trail offsets hg lane.isLt
      exact ⟨calls, fun _ => h⟩
    · exact ⟨[], fun h => absurd h hg⟩
  choose calls hcalls using htrails
  refine ⟨calls, fun g hg lane => (hcalls g lane hg).2, ?_⟩
  intro g hg lane fuel hfuel
  rw [L.taskCount_eq] at hfuel
  exact (hcalls g lane hg).1 fuel (by exact_mod_cast hfuel)

variable {L offsets x mode stale} {calls : ℕ → Fin 2 → List LaneCall} {g : ℕ}

section Group

variable (hsized : L.Sized mode) (hw : ∀ c < L.chunks, ¬ offsets.Wraps c)
  (hwalks : L.Walks offsets calls) (hg : g < L.groups)

/-- The lanes of a group keep the slot protocol. -/
def groupLanes (lane : Fin 2) : LaneProgram (L.groupEnv offsets x mode g) (L.count g) where
  tiling := L.tiling
  items := (calls g lane).flatMap (LaneCall.items L.tiling offsets)
  rounds := (hwalks g hg lane).laneRounds hsized.numRepeat_pos hg lane.isLt hsized.t_lt hw
    (hsized.rounds_lt g hg) fun _ hr => L.reuse_eq hsized.lanes_lt (hsized.rounds_lt g hg) hr

omit [CommRing F] [LinearOrder F] in
include hsized hw hwalks in
/-- All commands touch their group's slots only. -/
theorem programs_inSlots (m : DeviceMemory F) (g : ℕ) (i : Party) :
    ∀ k ∈ (L.deviceStart offsets mode calls m).todo g i, k.InSlots g := by
  intro k hk
  by_cases hg : g < L.groups
  · simp only [deviceStart, if_pos hg] at hk
    cases i with
    | aic => exact aicCommands_inSlots hg k hk
    | aiv lane =>
        exact (hwalks g hg lane).laneCommands_inSlots hsized.numRepeat_pos hg lane.isLt hsized.t_lt
          hw (hsized.rounds_lt g hg) lane k hk
  · simp [deviceStart, hg] at hk

omit [CommRing F] [LinearOrder F] in
/-- The programs of a group are those of the slot protocol. -/
theorem programs_eq (m : DeviceMemory F) (m' : AicMemory F) :
    (L.deviceStart offsets mode calls m).todo g =
      (groupStart (L.groupEnv offsets x mode g)
        (LaneProgram.parts (groupLanes (x := x) hsized hw hwalks hg)) (L.count g) m').todo := by
  ext1 i
  simp only [deviceStart, if_pos hg]
  cases i with
  | aic => exact aicCommands_eq hg (hsized.rounds_lt g hg)
  | aiv lane => rfl

/-- The device after any interleaving of a launch. -/
def DeviceReachable (L : Launch) (offsets : ChunkOffsets) (x : KernelInputs F) (mode : KMode)
    (stale : ℕ → Fin 2 → ℕ → ℕ → F) (calls : ℕ → Fin 2 → List LaneCall) (m : DeviceMemory F) :
    Family ℕ Party Command Flag (DeviceMemory F) → Prop :=
  Family.Reachable (net true) inOrder (L.deviceAct offsets x mode stale)
    (L.deviceStart offsets mode calls m)

variable {m : DeviceMemory F} {s : Family ℕ Party Command Flag (DeviceMemory F)}

/-- **What a group keeps** in every interleaving of the device: a serialization of its
pending commands that runs to no tokens, meets its assertions and is fenced. -/
theorem group_kept (hs : L.DeviceReachable offsets x mode stale calls m s) :
    ∃ m' R m₁, SameGroup g (s.mem.aicMemory g) m' ∧ (net true).Serial R (s.todo g) ∧
      (discipline true (L.groupEnv offsets x mode g)).Kept (fun _ => 0) m₁ R (s.tokens g) m' ∧
      R.Sublist (groupProgram mode (L.groupEnv offsets x mode g).tasks
        (LaneProgram.parts (groupLanes (x := x) hsized hw hwalks hg)) (L.count g)) := by
  have hsame : SameGroup g (m.aicMemory g) (m.aicMemory g) := ⟨rfl, rfl, rfl, rfl, fun _ _ _ => rfl⟩
  have hserial := groupStart_serial (L.groupEnv offsets x mode g)
    (LaneProgram.parts (groupLanes (x := x) hsized hw hwalks hg)) (L.count g) (m.aicMemory g)
  rw [← programs_eq hsized hw hwalks hg m] at hserial
  have hfits : ∀ r < L.count g, (L.groupEnv offsets x mode g).valid r = true →
      ((L.groupEnv offsets x mode g).tasks r).Fits := fun r hr => groupEnv_fits hg hr hw
  have hkept := groupStart_kept hfits
    (LaneProgram.partOk (groupLanes (x := x) hsized hw hwalks hg)) (m.aicMemory g)
  obtain ⟨m', R, hrel, hR, hkeptR, hsub⟩ := Family.Reachable.serial
    (L.device_views offsets x mode stale) hs (programs_inSlots hsized hw hwalks m) hsame
    (((discipline true (L.groupEnv offsets x mode g)).stable_kept (fun _ => 0) _).and
      (Net.stable_sublist _ _)) hserial ⟨hkept, List.Sublist.refl _⟩
  exact ⟨m', R, _, hrel, hR, hkeptR, hsub⟩

include hsized hw hwalks hg in
/-- **A group with pending commands can step.** -/
theorem group_step (hs : L.DeviceReachable offsets x mode stale calls m s) {i : Party}
    (hi : s.todo g i ≠ []) :
    ∃ s', Family.Step (net true) inOrder (L.deviceAct offsets x mode stale) s s' := by
  obtain ⟨m', R, m₁, -, hR, hkept, -⟩ := group_kept hsized hw hwalks hg hs
  exact Family.exists_step hR hkept.runs hi

include hsized hw hwalks hg in
/-- **A group that is done** has no tokens left. -/
theorem group_done (hs : L.DeviceReachable offsets x mode stale calls m s)
    (hdone : ∀ i, s.todo g i = []) (f : Flag) : s.tokens g f = 0 := by
  obtain ⟨m', R, m₁, -, hR, hkept, -⟩ := group_kept hsized hw hwalks hg hs
  have hfinal : Net.Final (s.member g m') := hdone
  exact congrFun (hkept.final hR hfinal).1 f

include hsized hw hwalks hg in
/-- **A lane copies the tile of its round**, from the workspace that all groups share. -/
theorem group_copy (hs : L.DeviceReachable offsets x mode stale calls m s) {lane : Fin 2}
    {r groupId slotId chunkLen rowStart rowCount : ℕ} {pre post : List Command}
    (h : (net true).Enabled (s.member g s.mem) (.aiv lane) pre
      (.aiv lane r (.copyKkt groupId slotId chunkLen rowStart rowCount)) post) :
    (L.groupEnv offsets x mode g).HoldsGram r (r % 2) (s.mem.aicMemory g) := by
  obtain ⟨m', R, m₁, hrel, hR, hkept, hsub⟩ := group_kept hsized hw hwalks hg hs
  have henabled : (net true).Enabled (s.member g m') (.aiv lane) pre
      (.aiv lane r (.copyKkt groupId slotId chunkLen rowStart rowCount)) post :=
    ⟨h.split, h.unheld, h.granted⟩
  obtain ⟨hslot, -, hgram⟩ := LaneProgram.copy_enabled
    (groupLanes (x := x) hsized hw hwalks hg) hkept hR hsub henabled
  rw [hslot] at hgram
  exact SameGroup.holdsGram (L.groupEnv offsets x mode g) hrel (Nat.mod_lt r (by decide)) hgram

end Group

end Launch

end ChunkScaledDotKkt
