import ChunkScaledDotKkt.LaneResult

/-!
# The programs of a group

The calls of a lane's loop as the rounds of the slot protocol: each round uses the slot of
its parity, releases it when a round follows on it, and copies only rows of the tile that
the AIC commits in the same round.

## Main results

* `Launch.Trail.laneRounds` — the loops of a launch keep the slot protocol.
* `Launch.Trail.laneCommands_inSlots`, `Launch.aicCommands_inSlots` — a group touches its two
  slots of the workspace only.
-/

namespace ChunkScaledDotKkt

open MachineInt VectorStage BlockCopy TokenNet LaneRun

variable {F : Type}

/-! ## The copies of a round -/

namespace VectorStage

/-- The copy of a round has the operands of its work. -/
theorem work_of_mem_protocolOps {groupId slotId g s c a b : ℕ} {work : Option KktCopy}
    {reuse : Bool}
    (h : .copyKkt g s c a b ∈ protocolOps groupId slotId work reuse) :
    g = groupId ∧ s = slotId ∧ work = some ⟨c, a, b⟩ := by
  cases work <;> cases reuse <;> simp_all [protocolOps]

/-- A copy of a round reads rows of the tile in its slot. -/
def InTile (g r : ℕ) : LaneOp → Prop
  | .copyKkt groupId slotId chunkLen rowStart rowCount =>
      groupId = g ∧ slotId = r % 2 ∧ chunkLen ≤ 64 ∧ rowStart + rowCount ≤ 64
  | _ => True

theorem inTile_of_protocol {g r : ℕ} {ops : List LaneOp} {work : Option KktCopy} {reuse : Bool}
    (h : ops.filter LaneOp.isProtocol = protocolOps g (r % 2) work reuse)
    (hwork : ∀ copy ∈ work, copy.chunkLen ≤ 64 ∧ copy.rowStart + copy.rowCount ≤ 64) :
    ∀ op ∈ ops, InTile g r op := by
  intro op hop
  cases op with
  | copyKkt groupId slotId chunkLen rowStart rowCount =>
      have hmem : .copyKkt groupId slotId chunkLen rowStart rowCount ∈
          ops.filter LaneOp.isProtocol := List.mem_filter.mpr ⟨hop, rfl⟩
      rw [h] at hmem
      obtain ⟨rfl, rfl, rfl⟩ := work_of_mem_protocolOps hmem
      exact ⟨rfl, rfl, hwork _ rfl⟩
  | _ => trivial

/-- The rows of a task are rows of its chunk. -/
theorem PipelineTask.Shares.kktCopy_le {offsets : ChunkOffsets} {lane c kv : ℕ}
    {tiling : ChunkScaledDotKktTilingData} {task : PipelineTask}
    (h : task.Shares tiling offsets lane c kv) (hrep : 1 ≤ tiling.numRepeat) (hlane : lane < 2)
    (ht : tiling.t < 1073741824) :
    ∀ copy ∈ task.kktCopy, copy.chunkLen ≤ 64 ∧ copy.rowStart + copy.rowCount ≤ 64 := by
  intro copy hcopy
  cases hwork : task.hasWork with
  | false => simp [kktCopy, hwork] at hcopy
  | true =>
      have hfits := h.fits hrep hlane ht hwork
      have h0 := hfits.rowStart_nonneg
      have hle := hfits.rows_le
      have hlen := hfits.chunkLen_le
      have hpos := hfits.rowCount_pos
      simp only [kktCopy, hwork, if_true, Option.mem_some_iff] at hcopy
      rw [← hcopy]
      simp only
      omega

end VectorStage

namespace Launch

variable {L : Launch} {offsets : ChunkOffsets} {x : KernelInputs F} {mode : KMode} {g r lane : ℕ}

/-! ## The tasks of the AIC -/

theorem groupEnv_valid (hg : g < L.groups) (hr : r < L.count g)
    (hw : ∀ c < L.chunks, ¬ offsets.Wraps c) :
    (L.groupEnv offsets x mode g).valid r = true ↔
      offsets.InRange L.tiling.t (L.place g r).1 := by
  have hvalid : (L.groupEnv offsets x mode g).valid r =
      PackedGramMmadCubeStage.isValidChunk mode L.tiling.t offsets (L.place g r).1 := by
    rw [SystemEnv.valid, groupEnv_task hg hr]
    rfl
  rw [hvalid, isValidChunk_eq]
  exact ChunkOffsets.validChunk_iff (hw _ (L.place_lt hg hr).1)

/-- The tasks of chunks in range have between 1 and 64 rows. -/
theorem groupEnv_fits (hg : g < L.groups) (hr : r < L.count g)
    (hw : ∀ c < L.chunks, ¬ offsets.Wraps c)
    (hvalid : (L.groupEnv offsets x mode g).valid r = true) :
    ((L.groupEnv offsets x mode g).tasks r).Fits := by
  have hin := (groupEnv_valid hg hr hw).mp hvalid
  have hlen : ((L.groupEnv offsets x mode g).tasks r).chunkLen =
      offsets.chunkLen (L.place g r).1 := by
    rw [groupEnv_task hg hr]
    rfl
  have hlt := hin.start_lt
  have hle := hin.len_le
  rw [AicTask.Fits, hlen, hin.chunkLen_eq]
  omega

/-- `Process` of the AIC of a group, as it reads the offsets. -/
def aicCommands (L : Launch) (offsets : ChunkOffsets) (mode : KMode) (g : ℕ) : List Command :=
  PackedGramMmadCubeStage.initPersistentEvents.map (.aic 0) ++
  ((List.range (L.count g)).flatMap fun r : ℕ =>
    (PackedGramMmadCubeStage.roundOps mode L.tiling offsets g r).map (.aic r)) ++
  PackedGramMmadCubeStage.drainPersistentEvents.map (.aic (L.count g))

/-- Fewer than `2^31` rounds wait and commit as the slot protocol has it. -/
theorem aicCommands_eq (hg : g < L.groups) (hn : L.count g < 2147483648) :
    L.aicCommands offsets mode g =
      aicProgram mode (L.groupEnv offsets x mode g).tasks (L.count g) := by
  have hround : ∀ r ∈ List.range (L.count g),
      (PackedGramMmadCubeStage.roundOps mode L.tiling offsets g r).map (Command.aic r) =
        aicBlock mode (L.groupEnv offsets x mode g).tasks r := by
    intro r hr
    have hr := List.mem_range.mp hr
    have hi32 := i32_round hn hr.le
    have hwaits : PackedGramMmadCubeStage.waitsFree
        ⟨i32 r, slotIdOf (i32 r), (L.place g r).1, (L.place g r).2⟩ = decide (2 ≤ r) := by
      simp only [PackedGramMmadCubeStage.waitsFree, hi32, SLOT_COUNT]
      exact decide_eq_decide.mpr (by omega)
    rw [aicBlock, aicOps, groupEnv_task hg hr, PackedGramMmadCubeStage.roundOps,
      aicRound_place hg hr, hwaits]
    simp only [slotIdOf_i32]
    rfl
  rw [aicCommands, aicProgram, List.flatMap_congr hround]

/-! ## The rounds of a lane -/

/-- **A single round** keeps the slot protocol. -/
theorem single_laneRound (hrep : 1 ≤ L.tiling.numRepeat) (hg : g < L.groups) (hlane : lane < 2)
    (ht : L.tiling.t < 1073741824) (hw : ∀ c < L.chunks, ¬ offsets.Wraps c) (hr : r < L.count g)
    {task : PipelineTask} {reuse : Bool}
    (htask : pipelineTask L.tiling offsets (L.task g r : ℕ) lane (i32 r) reuse = task) :
    task.slotId = r % 2 ∧ task.willReuseSlot = reuse ∧
      (task.hasWork = true → offsets.InRange L.tiling.t (L.place g r).1 ∧
        task.firstRepeat < task.repeatEnd) ∧ ∀ op ∈ task.ops L.tiling g, InTile g r op := by
  obtain ⟨hc, hkv⟩ := task_tdiv_tmod hg hr
  have hclt := (L.place_lt hg hr).1
  have hslot : task.slotId = r % 2 := by
    rw [← htask, pipelineTask_slotId, slotIdOf_i32]
  refine ⟨hslot, by rw [← htask]; rfl, ?_⟩
  by_cases hin : offsets.InRange L.tiling.t (L.place g r).1
  · have hshares : (pipelineTask L.tiling offsets (L.task g r : ℕ) lane (i32 r) reuse).Shares
        L.tiling offsets lane _ _ := pipelineTask_shares hrep hlane hc hkv hin
    rw [htask] at hshares
    have hlt := hshares.firstRepeat_lt hrep hlane
    refine ⟨fun _ => ⟨hin, hlt⟩, ?_⟩
    have hprotocol := task.ops_protocol L.tiling g fun _ => hlt
    rw [hslot] at hprotocol
    exact inTile_of_protocol hprotocol (hshares.kktCopy_le hrep hlane ht)
  · have hidle : task.hasWork = false := htask ▸ pipelineTask_idle hc (hw _ hclt) hin
    have hwork : task.hasWork = true → task.firstRepeat < task.repeatEnd := by simp [hidle]
    refine ⟨by simp [hidle], ?_⟩
    have hprotocol := task.ops_protocol L.tiling g hwork
    rw [hslot] at hprotocol
    refine inTile_of_protocol hprotocol ?_
    simp [PipelineTask.kktCopy, hidle]

/-- **Both rounds of a fused pair** keep the slot protocol. -/
theorem pair_laneRound (hg : g < L.groups) (hw : ∀ c < L.chunks, ¬ offsets.Wraps c)
    (hr : r + 1 < L.count g) (hn : L.count g < 2147483648)
    (hplace : L.place g (r + 1) = ((L.place g r).1 + 1, (L.place g r).2))
    (hfuse : canFuseAdjacentFullChunks L.tiling.t offsets (L.place g r).1 = true)
    {kPair : Bool} {firstHeadId : ℤ} {pair : ChunkPair}
    (hpair : adjacentFullChunk offsets kPair (L.place g r).1 firstHeadId (i32 r) (L.count g) =
      pair) :
    (pair.firstSlotId = r % 2 ∧ pair.secondSlotId = (r + 1) % 2) ∧
      (pair.reuseFirstSlot = decide (r + 2 < L.count g) ∧
        pair.reuseSecondSlot = decide (r + 1 + 2 < L.count g)) ∧
      (offsets.InRange L.tiling.t (L.place g r).1 ∧
        offsets.InRange L.tiling.t (L.place g (r + 1)).1) ∧
      (∀ op ∈ pair.firstOps g, InTile g r op) ∧
      ∀ op ∈ pair.secondOps L.tiling.t g, InTile g (r + 1) op := by
  obtain ⟨hin, hin', -, -⟩ := inRange_of_fuse hg hr hw hplace hfuse
  have hnext : i32 (i32 r + 1) = i32 ((r + 1 : ℕ) : ℤ) := i32_advance r 1
  have hslot : pair.firstSlotId = r % 2 := by
    rw [← hpair, firstSlotId_eq, slotIdOf_i32]
  have hslot' : pair.secondSlotId = (r + 1) % 2 := by
    rw [← hpair, secondSlotId_eq, hnext, slotIdOf_i32]
  have hreuse : pair.reuseFirstSlot = decide (r + 2 < L.count g) := by
    rw [← hpair]
    simp only [adjacentFullChunk, i32_round hn (by omega : r ≤ L.count g), SLOT_COUNT]
    exact decide_eq_decide.mpr (by omega)
  have hreuse' : pair.reuseSecondSlot = decide (r + 1 + 2 < L.count g) := by
    rw [← hpair]
    simp only [adjacentFullChunk, hnext, i32_round hn hr.le, SLOT_COUNT]
    exact decide_eq_decide.mpr (by omega)
  have hfull : ∀ copy ∈ some (⟨64, 0, 64⟩ : KktCopy),
      copy.chunkLen ≤ 64 ∧ copy.rowStart + copy.rowCount ≤ 64 := by decide
  have hprotocol := pair.firstOps_protocol g
  rw [hslot] at hprotocol
  have hprotocol' := pair.secondOps_protocol L.tiling.t g
  rw [hslot'] at hprotocol'
  exact ⟨⟨hslot, hslot'⟩, ⟨hreuse, hreuse'⟩,
    ⟨hin, hplace ▸ hin'⟩,
    inTile_of_protocol hprotocol hfull, inTile_of_protocol hprotocol' hfull⟩

/-- **The walk of a lane keeps the slot protocol.** -/
theorem Trail.laneRounds (hrep : 1 ≤ L.tiling.numRepeat) (hg : g < L.groups) (hlane : lane < 2)
    (ht : L.tiling.t < 1073741824) (hw : ∀ c < L.chunks, ¬ offsets.Wraps c)
    (hn : L.count g < 2147483648) {reuse : ℕ → Bool}
    (hreuse : ∀ r < L.count g, reuse r = decide (r + 2 < L.count g)) {calls : List LaneCall}
    (h : L.Trail offsets reuse g lane r calls) :
    LaneRounds (L.groupEnv offsets x mode g).valid (L.count g) r
      (calls.flatMap (LaneCall.items L.tiling offsets)) := by
  induction h with
  | done => exact .done
  | test h0 hc rest ih => exact ih
  | single hr rest ih =>
      obtain ⟨hslot, hflag, hwork, -⟩ := single_laneRound hrep hg hlane ht hw hr rfl
      exact .single hr hslot (hflag.trans (hreuse _ hr))
        (fun h => (hwork h).imp (groupEnv_valid hg hr hw).mpr id) ih
  | pair hr hthree hplace hfuse rest ih =>
      obtain ⟨hslot, hflag, hvalid, -⟩ := pair_laneRound hg hw hr hn hplace hfuse rfl
      exact .pair hr hslot hflag
        (hvalid.imp (groupEnv_valid hg (by omega) hw).mpr (groupEnv_valid hg hr hw).mpr) ih

end Launch

/-- Commands of a group that touch the workspace do so in its two slots. -/
def Command.InSlots (g : ℕ) : Command → Prop
  | .aic _ (.commitWorkspace slotId) => slotId < 2
  | .aic _ _ => True
  | .aiv _ r op => InTile g r op

theorem inSlots_map {g r : ℕ} {lane : Fin 2} {ops : List LaneOp} (h : ∀ op ∈ ops, InTile g r op) :
    ∀ k ∈ ops.map (Command.aiv lane r), k.InSlots g := by
  intro k hk
  obtain ⟨op, hop, rfl⟩ := List.mem_map.mp hk
  exact h op hop

namespace Launch

variable {L : Launch} {offsets : ChunkOffsets} {mode : KMode} {g r lane : ℕ}

theorem Trail.callBlocks_inSlots (hrep : 1 ≤ L.tiling.numRepeat) (hg : g < L.groups)
    (hlane : lane < 2) (ht : L.tiling.t < 1073741824) (hw : ∀ c < L.chunks, ¬ offsets.Wraps c)
    (hn : L.count g < 2147483648) {reuse : ℕ → Bool} {calls : List LaneCall}
    (h : L.Trail offsets reuse g lane r calls) (party : Fin 2) :
    ∀ k ∈ L.callBlocks offsets g party r calls, k.InSlots g := by
  induction h with
  | done =>
      intro k hk
      simp [callBlocks, laneParts, laneBlocks] at hk
  | test h0 hc rest ih => exact ih
  | @single r calls hr rest ih =>
      rw [callBlocks_single]
      generalize htask : pipelineTask L.tiling offsets (L.task g r : ℕ) lane (i32 r) (reuse r) =
        task
      obtain ⟨-, -, -, hcopies⟩ := single_laneRound hrep hg hlane ht hw hr htask
      intro k hk
      rw [List.mem_append] at hk
      cases hk with
      | inl hk => exact inSlots_map hcopies k hk
      | inr hk => exact ih k hk
  | @pair r calls hr hthree hplace hfuse rest ih =>
      rw [callBlocks_pair]
      generalize hpair : adjacentFullChunk offsets (lane == 1) (L.place g r).1
        ((L.place g r).2 * 3 + lane : ℕ) (i32 r) (L.count g) = pair
      obtain ⟨-, -, -, hfirst, hsecond⟩ := pair_laneRound hg hw hr hn hplace hfuse hpair
      intro k hk
      rw [List.mem_append, List.mem_append] at hk
      rcases hk with hk | hk | hk
      · exact inSlots_map hfirst k hk
      · exact inSlots_map hsecond k hk
      · exact ih k hk

/-- **A lane touches its two slots only.** -/
theorem Trail.laneCommands_inSlots (hrep : 1 ≤ L.tiling.numRepeat) (hg : g < L.groups)
    (hlane : lane < 2) (ht : L.tiling.t < 1073741824) (hw : ∀ c < L.chunks, ¬ offsets.Wraps c)
    (hn : L.count g < 2147483648) {reuse : ℕ → Bool} {calls : List LaneCall}
    (h : L.Trail offsets reuse g lane 0 calls) (party : Fin 2) :
    ∀ k ∈ L.laneCommands offsets g party calls, k.InSlots g := by
  have hlen := h.parts_length
  rw [Nat.zero_add] at hlen
  intro k hk
  rw [laneCommands, laneProgram_eq _ hlen, List.mem_append] at hk
  cases hk with
  | inl hk => exact h.callBlocks_inSlots hrep hg hlane ht hw hn party k hk
  | inr hk =>
      refine inSlots_map (fun op hop => ?_) k hk
      simp only [laneEnd, List.mem_cons, List.not_mem_nil, or_false] at hop
      rcases hop with rfl | rfl <;> trivial

/-- **The AIC commits to its two slots only.** -/
theorem aicCommands_inSlots (hg : g < L.groups) :
    ∀ k ∈ L.aicCommands offsets mode g, k.InSlots g := by
  intro k hk
  simp only [aicCommands, List.mem_append, List.mem_flatMap, List.mem_map] at hk
  rcases hk with (⟨op, hop, rfl⟩ | ⟨r, hr, op, hop, rfl⟩) | ⟨op, hop, rfl⟩
  · simp only [PackedGramMmadCubeStage.initPersistentEvents, List.mem_cons, List.not_mem_nil,
      or_false] at hop
    rcases hop with rfl | rfl <;> trivial
  · cases op with
    | commitWorkspace slotId =>
        rw [PackedGramMmadCubeStage.roundOps, aicRound_place hg (List.mem_range.mp hr)] at hop
        simp only [slotIdOf_i32] at hop
        have hslot : slotId = r % 2 :=
          slotId_taskOps mode _ _ _ (r % 2) (Nat.mod_lt r (by decide)) _ hop slotId rfl
        rw [Command.InSlots, hslot]
        exact Nat.mod_lt r (by decide)
    | _ => trivial
  · simp only [PackedGramMmadCubeStage.drainPersistentEvents, List.mem_cons, List.not_mem_nil,
      or_false] at hop
    rcases hop with rfl | rfl | rfl <;> trivial

end Launch

end ChunkScaledDotKkt
