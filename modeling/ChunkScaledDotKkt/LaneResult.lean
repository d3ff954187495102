import ChunkScaledDotKkt.Guards
import ChunkScaledDotKkt.Operator
import ChunkScaledDotKkt.SlotProtocol

/-!
# What a lane computes

The whole program of a lane, each round in the environment it meets: as long as the slot
of a round in range holds the Gram tile of its task, every element that the lane stores
gets the operator's value, and the elements it stores are those it owns.

## Main results

* `Launch.Trail.meets` — any walk of the rounds, by induction over its calls.
* `lane_computes` — the output of a lane that runs alone.
-/

namespace ChunkScaledDotKkt

open MachineInt VectorStage BlockCopy TokenNet LaneRun

variable {F : Type} [CommRing F] [LinearOrder F]

/-! ## Rounds of a lane -/

namespace Command

/-- The effect of a lane's command in the environment of its round. -/
def laneRun (envs : ℕ → LaneEnv F) (stale : ℕ → ℕ → F) (k : Command) (s : LaneRun F) : LaneRun F :=
  match k with
  | .aic _ _ => s
  | .aiv _ r op => op.run (envs r) stale s

/-- A launch of a lane relies on results. -/
def laneGood (t : ℤ) (IsResult : ℤ → F → Prop) (k : Command) (s : LaneRun F) : Prop :=
  match k with
  | .aic _ _ => True
  | .aiv _ _ op => op.good t IsResult s

end Command

theorem LaneRun.Delivered.laneRun {envs : ℕ → LaneEnv F} {stale : ℕ → ℕ → F} {t : ℤ}
    {IsResult : ℤ → F → Prop} (ht : ∀ r, (envs r).t = t) {gm : ℤ → F} {k : Command} {s : LaneRun F}
    (hgood : k.laneGood t IsResult s) (h : s.Delivered IsResult gm) :
    (k.laneRun envs stale s).Delivered IsResult gm := by
  cases k with
  | aic r op => exact h
  | aiv lane r op => exact h.run (ht r) hgood

/-- The parts of a lane's program from round `r` on. -/
def laneBlocks (lane : Fin 2) : ℕ → List (List LaneOp) → List Command
  | _, [] => []
  | r, ops :: parts => ops.map (.aiv lane r) ++ laneBlocks lane (r + 1) parts

theorem laneBlocks_eq (lane : Fin 2) (r : ℕ) (parts : List (List LaneOp)) :
    laneBlocks lane r parts =
      (List.range parts.length).flatMap fun i => (parts.getD i []).map (.aiv lane (r + i)) := by
  induction parts generalizing r with
  | nil => rfl
  | cons ops parts ih =>
      rw [laneBlocks, ih, List.length_cons, List.range_succ_eq_map, List.flatMap_cons,
        List.flatMap_map]
      simp [Nat.add_comm 1, Nat.add_assoc]

/-- The program of a lane, round by round. -/
theorem laneProgram_eq (lane : Fin 2) {parts : List (List LaneOp)} {n : ℕ}
    (hlen : parts.length = n) :
    laneProgram lane parts n = laneBlocks lane 0 parts ++ laneEnd.map (.aiv lane n) := by
  rw [laneProgram, laneBlocks_eq, hlen]
  simp only [Nat.zero_add]
  rfl

/-- Commands of one round. -/
theorem meets_round {envs : ℕ → LaneEnv F} {stale : ℕ → ℕ → F} {t : ℤ} {IsResult : ℤ → F → Prop}
    {P Q : LaneRun F → Prop} {ops : List LaneOp} (lane : Fin 2) {r : ℕ}
    (h : Meets (LaneOp.run (envs r) stale) (LaneOp.good t IsResult) P ops Q) :
    Meets (Command.laneRun envs stale) (Command.laneGood t IsResult) P (ops.map (.aiv lane r)) Q :=
  Meets.map h

/-! ## A round against the operator -/

namespace VectorStage

/-- A task with work on its share of a chunk. -/
theorem PipelineTask.Shares.fits {offsets : ChunkOffsets} {lane : ℕ}
    {tiling : ChunkScaledDotKktTilingData} {c kv : ℕ}
    {task : PipelineTask} (h : task.Shares tiling offsets lane c kv) (hrep : 1 ≤ tiling.numRepeat)
    (hlane : lane < 2) (ht : tiling.t < 1073741824) (hwork : task.hasWork = true) :
    task.Fits tiling := by
  obtain ⟨hfirst0, hfirst, -⟩ := lane_heads hrep hlane
  have hpos := h.hasWork.symm.trans hwork
  rw [decide_eq_true_eq] at hpos
  have hlast := (h.token (task.start + task.rowStart + task.rowCount - 1)).mp (by omega)
  have hin := h.inRange
  have hstart := h.start
  have hlen := h.chunkLen
  have hle := hin.len_le
  have hend := hin.end_le
  refine ⟨ht, ?_, h.firstRepeat_lt hrep hlane, hstart ▸ hin.nonneg, h.rowStart_nonneg, hpos,
    by omega, by omega, by omega, h.pair_rows⟩
  rw [PipelineTask.firstHead, h.kvHeadId, h.firstRepeat]
  have hbase : 0 ≤ kv * tiling.numRepeat := by positivity
  omega

end VectorStage

namespace Launch

variable (L : Launch) (offsets : ChunkOffsets) (x : KernelInputs F) (mode : KMode)

/-- A group of the launch: K and the task of each round. -/
def groupEnv (g : ℕ) : SystemEnv F where
  cube := x.cubeEnv mode L.tiling.hg g
  tasks r := PackedGramMmadCubeStage.task mode L.tiling offsets
    (PackedGramMmadCubeStage.round L.tiling g r)

/-- Whenever a round has a tile, the slot holds its Gram matrix. -/
def HoldsTiles (g : ℕ) (mem : ℕ → AicMemory F) : Prop :=
  ∀ r < L.count g, offsets.InRange L.tiling.t (L.place g r).1 →
    (L.groupEnv offsets x mode g).HoldsGram r (r % 2) (mem r)

/-- The environment of each round, with the workspace as it is then. -/
def roundEnvs (mem : ℕ → AicMemory F) (r : ℕ) : LaneEnv F := x.laneEnv L.tiling.t (mem r).workspace

omit [CommRing F] [LinearOrder F] in
@[simp] theorem roundEnvs_t (mem : ℕ → AicMemory F) (r : ℕ) :
    (L.roundEnvs x mem r).t = L.tiling.t := rfl

variable {L offsets x mode} {g r lane : ℕ} {mem : ℕ → AicMemory F}
  (hrep : 1 ≤ L.tiling.numRepeat) (hg : g < L.groups)
  (hfit : L.tiling.hg * mode.kDim < 65536)

theorem slotIdOf_i32 (r : ℕ) : (slotIdOf (i32 r)).toNat = r % 2 := by
  simp only [slotIdOf, SLOT_COUNT, i32]
  omega

omit [CommRing F] [LinearOrder F] in
include hg in
theorem groupEnv_task (hr : r < L.count g) : (L.groupEnv offsets x mode g).tasks r =
    PackedGramMmadCubeStage.task mode L.tiling offsets
      (chunkRound (i32 r) (slotIdOf (i32 r)) (L.place g r).1 (L.place g r).2) :=
  congrArg (PackedGramMmadCubeStage.task mode L.tiling offsets) (aicRound_place hg hr)

theorem hg_pos : 0 < L.tiling.hg := by
  have hpos := L.kvHeads_pos
  rw [L.hg_eq]
  omega

include hrep hg hfit in
/-- **A round's heads get the operator's values.** -/
theorem round_yields (hr : r < L.count g) (htiles : L.HoldsTiles offsets x mode g mem)
    (hin : offsets.InRange L.tiling.t (L.place g r).1) {first last : ℤ}
    (hfirst : (L.place g r).2 * L.tiling.numRepeat ≤ first)
    (hlast : last ≤ (L.place g r).2 * L.tiling.numRepeat + L.tiling.numRepeat) :
    (L.roundEnvs x mem r).Yields (L.IsElement offsets x mode.kDim) g (r % 2)
      (offsets.getValue (L.place g r).1)
      (offsets.getValue ((L.place g r).1 + 1) - offsets.getValue (L.place g r).1).toNat first
      last := by
  intro head hle hlt i hi j hj
  obtain ⟨hc, hkv⟩ := L.place_lt hg hr
  have hdiv : head / L.tiling.numRepeat = (L.place g r).2 := by
    have hsplit : head = (head - (L.place g r).2 * L.tiling.numRepeat) +
        (L.place g r).2 * L.tiling.numRepeat := by omega
    rw [hsplit, Int.add_mul_ediv_right _ _ (by omega), Int.ediv_eq_zero_of_lt (by omega) (by omega),
      Int.zero_add]
  have hgram := htiles r hr hin
  rw [SystemEnv.HoldsGram, groupEnv_task hg hr] at hgram
  have hrow : (i : ℤ) < offsets.getValue ((L.place g r).1 + 1) -
      offsets.getValue (L.place g r).1 := by omega
  refine ⟨_, hc, hin, head, ?_, ?_, i, j, hrow, hj, rfl,
    formula_eq_element hin hg_pos hfit _ _ hgram hdiv hrow hj⟩
  · have hbase : 0 ≤ (L.place g r).2 * L.tiling.numRepeat := by positivity
    omega
  · rw [L.hg_eq]
    refine (Int.ediv_lt_iff_lt_mul (by omega)).mp ?_
    rw [hdiv]
    exact_mod_cast hkv

/-! ## The items of a lane -/

variable (ht : L.tiling.t < 1073741824) (hlane : lane < 2)
  (hexp : ∀ a b, x.exp a * x.exp (-b) = x.exp (a - b)) (stale : ℕ → ℕ → F)

include hrep hg hfit ht hlane hexp in
/-- A task on its share of the chunk of its round. -/
theorem shares_meets (hr : r < L.count g) (htiles : L.HoldsTiles offsets x mode g mem)
    {task : PipelineTask} (hslot : task.slotId = r % 2)
    (hshares : task.Shares L.tiling offsets lane (L.place g r).1 (L.place g r).2)
    (hwork : task.hasWork = true) (elems : List ℤ) :
    Meets (LaneOp.run (L.roundEnvs x mem r) stale)
      (LaneOp.good L.tiling.t (L.IsElement offsets x mode.kDim))
      (Sent L.tiling.t (L.IsElement offsets x mode.kDim) elems) (task.ops L.tiling g)
      (Sent L.tiling.t (L.IsElement offsets x mode.kDim)
        (elems ++ (task.records L.tiling).flatMap fun output =>
          targets (output.launchMoves L.tiling.t))) := by
  have hfits := hshares.fits hrep hlane ht hwork
  obtain ⟨hfirst0, -, hlast⟩ := lane_heads hrep hlane
  have hhead : task.firstHead L.tiling = (L.place g r).2 * L.tiling.numRepeat := by
    rw [PipelineTask.firstHead, hshares.kvHeadId]
  have hfrom : (L.place g r).2 * L.tiling.numRepeat ≤
      task.firstHead L.tiling + task.firstRepeat := by
    rw [hhead, hshares.firstRepeat]
    omega
  have hto : task.firstHead L.tiling + task.repeatEnd ≤
      (L.place g r).2 * L.tiling.numRepeat + L.tiling.numRepeat := by
    rw [hhead, hshares.repeatEnd]
    omega
  have hyields := round_yields hrep hg hfit hr htiles hshares.inRange hfrom hto
  rw [← hslot, ← hshares.chunkLen, ← hshares.start] at hyields
  exact hfits.meets_ops (roundEnvs_t L x mem r) g hexp hyields hwork

omit [CommRing F] [LinearOrder F] in
/-- A round without work waits for its tile and releases it. -/
theorem idle_plain (tiling : ChunkScaledDotKktTilingData) (g : ℕ) {task : PipelineTask}
    (hwork : task.hasWork = false) :
    task.records tiling = [] ∧ ∀ op ∈ task.ops tiling g, op.isPlain = true := by
  constructor
  · rw [PipelineTask.records, hwork]
    rfl
  · cases hreuse : task.willReuseSlot <;>
      simp [PipelineTask.ops, hwork, hreuse, LaneOp.isPlain]

include hrep hg hfit ht hlane hexp in
/-- **A single round.** -/
theorem single_meets (hr : r < L.count g) (htiles : L.HoldsTiles offsets x mode g mem)
    (hw : ∀ c < L.chunks, ¬ offsets.Wraps c) {task : PipelineTask} {reuse : Bool}
    (htask : pipelineTask L.tiling offsets (L.task g r : ℕ) lane (i32 r) reuse = task)
    (elems : List ℤ) :
    Meets (LaneOp.run (L.roundEnvs x mem r) stale)
      (LaneOp.good L.tiling.t (L.IsElement offsets x mode.kDim))
      (Sent L.tiling.t (L.IsElement offsets x mode.kDim) elems) (task.ops L.tiling g)
      (Sent L.tiling.t (L.IsElement offsets x mode.kDim)
        (elems ++ (task.records L.tiling).flatMap fun output =>
          targets (output.launchMoves L.tiling.t))) := by
  obtain ⟨hc, hkv⟩ := task_tdiv_tmod hg hr
  have hclt := (L.place_lt hg hr).1
  cases hwork : task.hasWork with
  | true =>
      have hin : offsets.InRange L.tiling.t (L.place g r).1 := by
        by_contra hno
        rw [← htask, pipelineTask_idle hc (hw _ hclt) hno] at hwork
        cases hwork
      have hshares : (pipelineTask L.tiling offsets (L.task g r : ℕ) lane (i32 r) reuse).Shares
          L.tiling offsets lane _ _ := pipelineTask_shares hrep hlane hc hkv hin
      rw [htask] at hshares
      have hslot : task.slotId = r % 2 := by
        rw [← htask, pipelineTask_slotId, slotIdOf_i32]
      exact shares_meets hrep hg hfit ht hlane hexp stale hr htiles hslot hshares hwork elems
  | false =>
      obtain ⟨hrecords, hplain⟩ := idle_plain L.tiling g hwork
      have hnothing : (laneLogic (L.roundEnvs x mem r)).Triple [] (task.ops L.tiling g) [] :=
        .trivial
      rw [hrecords, List.flatMap_nil, List.append_nil]
      exact (meets_plain stale _ elems hplain hnothing).weaken
        (fun s hs => ⟨FactLogic.sat_nil _ _, hs⟩) fun _ hs => hs.2

omit [CommRing F] [LinearOrder F] in
/-- The scalars of a fused pair of adjacent full chunks. -/
theorem pair_fits {lane c kv : ℕ} (ht : L.tiling.t < 1073741824)
    (hin : offsets.InRange L.tiling.t c) (hin' : offsets.InRange L.tiling.t (c + 1 : ℕ))
    (hlen : offsets.getValue (c + 1) - offsets.getValue c = 64)
    (hlen' : offsets.getValue (c + 2) - offsets.getValue (c + 1) = 64)
    (localRound localTaskCount : ℤ) :
    (adjacentFullChunk offsets (lane == 1) c (kv * 3 + lane : ℕ) localRound localTaskCount).Fits
      L.tiling.t := by
  have hend := hin'.end_le
  have hnext : ((c + 1 : ℕ) : ℤ) + 1 = c + 2 := by push_cast; ring
  rw [hnext] at hend
  refine ⟨ht, ?_, hin.nonneg, ?_, ?_⟩
  · simp only [adjacentFullChunk]
    positivity
  · simp only [adjacentFullChunk]
    omega
  · simp only [adjacentFullChunk]
    omega

include hrep hg hfit ht hlane hexp in
/-- **Both rounds of a fused pair.** -/
theorem pair_meets (hr : r + 1 < L.count g) (htiles : L.HoldsTiles offsets x mode g mem)
    (hw : ∀ c < L.chunks, ¬ offsets.Wraps c) (hthree : L.tiling.numRepeat = 3)
    (hplace : L.place g (r + 1) = ((L.place g r).1 + 1, (L.place g r).2))
    (hfuse : canFuseAdjacentFullChunks L.tiling.t offsets (L.place g r).1 = true)
    {pair : ChunkPair} {localTaskCount : ℤ}
    (hpair : adjacentFullChunk offsets (lane == 1) (L.place g r).1
      ((L.place g r).2 * 3 + lane : ℕ) (i32 r) localTaskCount = pair) (elems : List ℤ) :
    Meets (LaneOp.run (L.roundEnvs x mem r) stale)
        (LaneOp.good L.tiling.t (L.IsElement offsets x mode.kDim))
        (Sent L.tiling.t (L.IsElement offsets x mode.kDim) elems) (pair.firstOps g)
        (holding (L.roundEnvs x mem r) (pair.firstTiles g (L.roundEnvs x mem r)) (Idle elems)) ∧
      Meets (LaneOp.run (L.roundEnvs x mem (r + 1)) stale)
        (LaneOp.good L.tiling.t (L.IsElement offsets x mode.kDim))
        (holding (L.roundEnvs x mem r) (pair.firstTiles g (L.roundEnvs x mem r)) (Idle elems))
        (pair.secondOps L.tiling.t g)
        (Sent L.tiling.t (L.IsElement offsets x mode.kDim)
          (elems ++ targets ((pair.record L.tiling.t).launchMoves L.tiling.t))) := by
  obtain ⟨hin, hin', hlen, hlen'⟩ := inRange_of_fuse hg hr hw hplace hfuse
  have hfits : pair.Fits L.tiling.t := hpair ▸ pair_fits ht hin hin' hlen hlen' _ _
  have hnext : i32 (i32 r + 1) = i32 ((r + 1 : ℕ) : ℤ) := i32_advance r 1
  have hslot : pair.firstSlotId = r % 2 := by
    rw [← hpair, firstSlotId_eq, slotIdOf_i32]
  have hslot' : pair.secondSlotId = (r + 1) % 2 := by
    rw [← hpair, secondSlotId_eq, hnext, slotIdOf_i32]
  have hstart : pair.firstStart = offsets.getValue (L.place g r).1 := by
    rw [← hpair]
    rfl
  have hstart' : pair.secondStart = offsets.getValue ((L.place g r).1 + 1) := by
    rw [← hpair]
    rfl
  -- the heads of the pair are heads of the KV head
  have hhead : pair.firstHeadId = (L.place g r).2 * L.tiling.numRepeat + lane ∧
      pair.kHeadCount = lane + 1 := by
    rw [← hpair, hthree]
    obtain rfl | rfl : lane = 0 ∨ lane = 1 := by omega
    · exact ⟨by simp [adjacentFullChunk], rfl⟩
    · exact ⟨by simp [adjacentFullChunk], rfl⟩
  have hmid : (((L.place g r).1 + 1 : ℕ) : ℤ) = (L.place g r).1 + 1 := Nat.cast_succ _
  have hfuture : (L.place g r).1 + 1 + 1 = ((L.place g r).1 : ℤ) + 2 := by ring
  have hfrom : (L.place g r).2 * L.tiling.numRepeat ≤ pair.firstHeadId := by omega
  have hto : pair.firstHeadId + pair.kHeadCount ≤
      (L.place g r).2 * L.tiling.numRepeat + L.tiling.numRepeat := by omega
  have hyields := round_yields hrep hg hfit (by omega) htiles hin hfrom hto
  rw [hlen, ← hslot, ← hstart] at hyields
  have hin'' : offsets.InRange L.tiling.t (L.place g (r + 1)).1 := hplace ▸ hin'
  have hkv : (L.place g (r + 1)).2 = (L.place g r).2 := by rw [hplace]
  rw [← hkv] at hfrom hto
  have hyields' := round_yields hrep hg hfit hr htiles hin'' hfrom hto
  rw [hplace] at hyields'
  simp only [hmid, hfuture] at hyields'
  rw [hlen', ← hslot', ← hstart'] at hyields'
  exact ⟨ChunkPair.meets_firstOps (L.roundEnvs x mem r),
    ChunkPair.meets_secondOps hfits (roundEnvs_t L x mem r) (roundEnvs_t L x mem (r + 1)) hexp hexp
      hyields hyields'⟩

/-! ## The walk -/

/-- The elements that the calls of a lane write, in order. -/
def elements (L : Launch) (offsets : ChunkOffsets) (calls : List LaneCall) : List ℤ :=
  ((calls.flatMap (LaneCall.items L.tiling offsets)).flatMap (LaneItem.records L.tiling)).flatMap
    fun output => targets (output.launchMoves L.tiling.t)

/-- The commands of the calls of a lane from round `r` on. -/
def callBlocks (L : Launch) (offsets : ChunkOffsets) (g : ℕ) (lane : Fin 2) (r : ℕ)
    (calls : List LaneCall) : List Command :=
  laneBlocks lane r (laneParts L.tiling g (calls.flatMap (LaneCall.items L.tiling offsets)))

theorem callBlocks_single (lane : Fin 2) (taskId groupId aivLane localRound : ℤ) (reuse : Bool)
    (calls : List LaneCall) :
    L.callBlocks offsets g lane r
        (.pipelineTask taskId groupId aivLane localRound reuse :: calls) =
      ((pipelineTask L.tiling offsets taskId aivLane localRound reuse).ops L.tiling g).map
        (.aiv lane r) ++ L.callBlocks offsets g lane (r + 1) calls := rfl

theorem elements_single (taskId groupId aivLane localRound : ℤ) (reuse : Bool)
    (calls : List LaneCall) :
    L.elements offsets (.pipelineTask taskId groupId aivLane localRound reuse :: calls) =
      ((pipelineTask L.tiling offsets taskId aivLane localRound reuse).records L.tiling).flatMap
        (fun output => targets (output.launchMoves L.tiling.t)) ++ L.elements offsets calls := by
  simp only [elements, LaneCall.items, LaneItem.records, List.flatMap_cons, List.cons_append,
    List.nil_append, List.flatMap_append]

theorem callBlocks_pair (lane : Fin 2) (kPair : Bool)
    (firstChunkId firstHeadId groupId localRound localTaskCount : ℤ) (calls : List LaneCall) :
    L.callBlocks offsets g lane r
        (.adjacentFullChunk kPair firstChunkId firstHeadId groupId localRound localTaskCount ::
          calls) =
      ((adjacentFullChunk offsets kPair firstChunkId firstHeadId localRound
        localTaskCount).firstOps g).map (.aiv lane r) ++
      (((adjacentFullChunk offsets kPair firstChunkId firstHeadId localRound
        localTaskCount).secondOps L.tiling.t g).map (.aiv lane (r + 1)) ++
      L.callBlocks offsets g lane (r + 2) calls) := rfl

theorem elements_pair (kPair : Bool)
    (firstChunkId firstHeadId groupId localRound localTaskCount : ℤ) (calls : List LaneCall) :
    L.elements offsets (.adjacentFullChunk kPair firstChunkId firstHeadId groupId localRound
        localTaskCount :: calls) =
      targets (((adjacentFullChunk offsets kPair firstChunkId firstHeadId localRound
        localTaskCount).record L.tiling.t).launchMoves L.tiling.t) ++ L.elements offsets calls := by
  simp only [elements, LaneCall.items, LaneItem.records, List.flatMap_cons, List.cons_append,
    List.nil_append]

include hrep hg hfit ht hlane hexp in
/-- **The rounds of a walk** send what their records write, each element with the value
of the operator. -/
theorem Trail.meets (htiles : L.HoldsTiles offsets x mode g mem)
    (hw : ∀ c < L.chunks, ¬ offsets.Wraps c) {reuse : ℕ → Bool} {calls : List LaneCall}
    (h : L.Trail offsets reuse g lane r calls) (elems : List ℤ) :
    Meets (Command.laneRun (L.roundEnvs x mem) stale)
      (Command.laneGood L.tiling.t (L.IsElement offsets x mode.kDim))
      (Sent L.tiling.t (L.IsElement offsets x mode.kDim) elems)
      (L.callBlocks offsets g ⟨lane, hlane⟩ r calls)
      (Sent L.tiling.t (L.IsElement offsets x mode.kDim) (elems ++ L.elements offsets calls)) := by
  induction h generalizing elems with
  | done =>
      rw [elements, List.flatMap_nil, List.flatMap_nil, List.flatMap_nil, List.append_nil]
      exact .nil
  | test h0 hc rest ih => exact ih elems
  | @single r calls hr rest ih =>
      rw [callBlocks_single, elements_single, ← List.append_assoc]
      generalize htask : pipelineTask L.tiling offsets (L.task g r : ℕ) lane (i32 r) (reuse r) =
        task
      have hround := single_meets hrep hg hfit ht hlane hexp stale hr htiles hw htask elems
      exact (meets_round ⟨lane, hlane⟩ hround).append (ih _)
  | @pair r calls hr hthree hplace hfuse rest ih =>
      rw [callBlocks_pair, elements_pair, ← List.append_assoc elems]
      generalize hpair : adjacentFullChunk offsets (lane == 1) (L.place g r).1
        ((L.place g r).2 * 3 + lane : ℕ) (i32 r) (L.count g) = pair
      obtain ⟨hfirst, hsecond⟩ :=
        pair_meets hrep hg hfit ht hlane hexp stale hr htiles hw hthree hplace hfuse hpair elems
      exact (meets_round ⟨lane, hlane⟩ hfirst).append
        ((meets_round ⟨lane, hlane⟩ hsecond).append (ih _))

theorem Trail.parts_length {reuse : ℕ → Bool} {calls : List LaneCall}
    (h : L.Trail offsets reuse g lane r calls) :
    r + (laneParts L.tiling g (calls.flatMap (LaneCall.items L.tiling offsets))).length =
      L.count g := by
  induction h with
  | done => rfl
  | test h0 hc rest ih => exact ih
  | single hr rest ih =>
      simp only [laneParts, LaneCall.items, LaneItem.parts, List.flatMap_cons, List.cons_append,
        List.nil_append, List.length_cons] at ih ⊢
      omega
  | pair hr hrep hplace hfuse rest ih =>
      simp only [laneParts, LaneCall.items, LaneItem.parts, List.flatMap_cons, List.cons_append,
        List.nil_append, List.length_cons] at ih ⊢
      omega

/-- `Process` of a lane on its calls. -/
def laneCommands (L : Launch) (offsets : ChunkOffsets) (g : ℕ) (lane : Fin 2)
    (calls : List LaneCall) : List Command :=
  laneProgram lane (laneParts L.tiling g (calls.flatMap (LaneCall.items L.tiling offsets)))
    (L.count g)

include hrep hg hfit ht hlane hexp in
/-- **A whole lane** stores what its records write and leaves nothing ready. -/
theorem Trail.meets_laneCommands (htiles : L.HoldsTiles offsets x mode g mem)
    (hw : ∀ c < L.chunks, ¬ offsets.Wraps c) {reuse : ℕ → Bool} {calls : List LaneCall}
    (h : L.Trail offsets reuse g lane 0 calls) :
    Meets (Command.laneRun (L.roundEnvs x mem) stale)
      (Command.laneGood L.tiling.t (L.IsElement offsets x mode.kDim)) (Idle [])
      (L.laneCommands offsets g ⟨lane, hlane⟩ calls) (Idle (L.elements offsets calls)) := by
  have hlen := h.parts_length
  rw [Nat.zero_add] at hlen
  have hwalk := h.meets hrep hg hfit ht hlane hexp stale htiles hw []
  rw [laneCommands, laneProgram_eq _ hlen]
  exact (hwalk.weaken (fun _ hs => Idle.sent hs) fun _ hs => hs).append
    (meets_round ⟨lane, hlane⟩ (meets_laneEnd stale _ _))

/-- The lane owns the element at the address, in one of its rounds. -/
def Owned (L : Launch) (offsets : ChunkOffsets) (g lane : ℕ) (a : ℤ) : Prop :=
  ∃ r < L.count g, ∃ b head token, ∃ col < 64,
    Owns L.tiling offsets lane (L.place g r).1 (L.place g r).2 b head token ∧
      a = elementOffset L.tiling.t head token col

/-- **A lane's calls write what it owns.** -/
theorem Trail.mem_elements {reuse : ℕ → Bool} {calls : List LaneCall}
    (h : L.Trail offsets reuse g lane 0 calls) (hrep : 1 ≤ L.tiling.numRepeat)
    (hmono : offsets.Nondecreasing L.chunks) (hg : g < L.groups) (hlane : lane < 2) {a : ℤ} :
    a ∈ L.elements offsets calls ↔ L.Owned offsets g lane a := by
  have hwrites := h.writes hrep hmono hg hlane
  rw [elements, List.mem_flatMap]
  constructor
  · rintro ⟨output, hout, ha⟩
    obtain ⟨r, -, hr, howner⟩ := hwrites.owner hout ha
    exact ⟨r, hr, howner⟩
  · rintro ⟨r, hr, b, head, token, col, hcol, howns, rfl⟩
    exact hwrites.owned r (Nat.zero_le r) hr b head token howns col hcol

/-! ## Tiles -/

variable (L offsets x mode)

/-- A workspace whose slots of the group hold the tile of a round. -/
def tileMemory (g r : ℕ) : AicMemory F where
  l1 _ := 0
  l0a _ _ := 0
  l0b _ _ := 0
  l0c _ := 0
  workspace a :=
    let b := a - PackedGramMmadCubeStage.slotOffset g (r % 2)
    gram ((L.groupEnv offsets x mode g).tile r) mode.kDim (b / 64) (b % 64)

omit [LinearOrder F] in
theorem tileMemory_holdsGram (g r : ℕ) :
    (L.groupEnv offsets x mode g).HoldsGram r (r % 2) (L.tileMemory offsets x mode g r) := by
  intro i hi j hj
  have hrow : (i * 64 + j) / 64 = i := by omega
  have hcol : (i * 64 + j) % 64 = j := by omega
  simp only [tileMemory, groupEnv, KernelInputs.cubeEnv, Nat.add_sub_cancel_left, hrow, hcol]
  rfl

end Launch

/-- **What a lane computes.**  The launch has at least one query head for each KV head, `t`
below `2^30` and rows of K of fewer than 65536 elements, and the offsets do not decrease.  A
lane that finds the Gram tile of its round in every slot it copies, and whatever in its own
tensors, ends with the value of the operator in every element of a chunk in range that it
owns and has changed no other. -/
theorem lane_computes (L : Launch) (offsets : ChunkOffsets) (x : KernelInputs F) (mode : KMode)
    {g lane : ℕ} (hrep : 1 ≤ L.tiling.numRepeat) (hmono : offsets.Nondecreasing L.chunks)
    (hg : g < L.groups) (hlane : lane < 2) (ht : L.tiling.t < 1073741824)
    (hfit : L.tiling.hg * mode.kDim < 65536)
    (hexp : ∀ a b, x.exp a * x.exp (-b) = x.exp (a - b)) {mem : ℕ → AicMemory F}
    (htiles : L.HoldsTiles offsets x mode g mem) (stale : ℕ → ℕ → F) {s : LaneRun F}
    (hs : s.Idle []) :
    ∃ calls, (∀ fuel : ℕ, L.tiling.taskCount g < fuel →
        process L.tiling offsets (2 * g + lane : ℕ) fuel = some calls) ∧
      let final := Net.exec (Command.laneRun (L.roundEnvs x mem) stale)
        (L.laneCommands offsets g ⟨lane, hlane⟩ calls) s
      (∀ a, L.Owned offsets g lane a →
        L.IsElement offsets x mode.kDim a (final.machine.port.gm a)) ∧
      ∀ a, ¬ L.Owned offsets g lane a → final.machine.port.gm a = s.machine.port.gm a := by
  obtain ⟨calls, hrun, htrail⟩ := L.process_trail offsets hg hlane
  refine ⟨calls, ?_, ?_⟩
  · intro fuel hfuel
    rw [L.taskCount_eq] at hfuel
    exact hrun fuel (by exact_mod_cast hfuel)
  have hw : ∀ c < L.chunks, ¬ offsets.Wraps c := fun c hc => hmono.not_wraps hc
  obtain ⟨hasserts, -, hstored⟩ :=
    htrail.meets_laneCommands hrep hg hfit ht hlane hexp stale htiles hw s hs
  have hstart : s.Delivered (L.IsElement offsets x mode.kDim) s.machine.port.gm := by
    constructor
    · rw [hs.2]
      exact nofun
    · exact fun a _ => rfl
  have hdelivered := hasserts.invariant (fun k s hgood h => h.laneRun (L.roundEnvs_t x mem) hgood)
    hstart
  have hmem := fun a => htrail.mem_elements hrep hmono hg hlane (a := a)
  refine ⟨fun a ha => hdelivered.result a ?_, fun a ha => hdelivered.other a ?_⟩
  · rw [hstored]
    exact (hmem a).mpr ha
  · rw [hstored]
    exact fun h => ha ((hmem a).mp h)

/-! ### One lane over the reals -/

/-- Gates that grow with the token, unit betas and a constant K. -/
noncomputable def risingInputs : KernelInputs ℝ where
  kGm _ := 1
  gGm i := i
  betaGm _ := 1
  exp := Real.exp

/-- A lane with old values in its tensors. -/
def staleRun : LaneRun ℝ := ⟨⟨staleMemory, ⟨none, none, fun a => a⟩, 0⟩, []⟩

/-- Columns 1 and 2 of the row of token 1, which the first lane of the first group owns. -/
theorem lane_computes_rising : ∃ calls,
    let final := Net.exec (Command.laneRun (sampleLaunch.roundEnvs risingInputs
      (sampleLaunch.tileMemory .full risingInputs .k128 0)) fun _ _ => 7)
      (sampleLaunch.laneCommands .full 0 0 calls) staleRun
    sampleLaunch.IsElement .full risingInputs 128 66 (final.machine.port.gm 66) := by
  obtain ⟨calls, -, h, -⟩ := lane_computes sampleLaunch .full risingInputs .k128 (g := 0)
    (by decide) (ChunkOffsets.full_nondecreasing (by decide)) (by decide) (Nat.zero_lt_two)
    (by decide) (by decide) exp_mul_exp_neg
    (fun r _ _ => sampleLaunch.tileMemory_holdsGram .full risingInputs .k128 0 r) (fun _ _ => 7)
    (s := staleRun) ⟨rfl, rfl⟩
  refine ⟨calls, h 66 ⟨0, by decide, 0, 0, 1, 2, by decide, ?_, by decide⟩⟩
  constructor <;> first | decide | constructor <;> decide

end ChunkScaledDotKkt
