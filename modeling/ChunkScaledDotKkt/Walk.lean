import ChunkScaledDotKkt.Lib.Loop
import ChunkScaledDotKkt.Chunk
import ChunkScaledDotKkt.Launch

/-!
# The producer's and the consumers' walks

The AIC takes its rounds from the closed formulas of the schedule.  Each AIV lane
walks the same tasks through one of four loops, chosen by `Process`, which keep
their own counters and may take two adjacent full chunks in one call.

`Launch.Trail` says what any of the four loops can emit: calls for the launch's
rounds in order, one or two rounds at a time, each round with its own reuse flag.
`Launch.Walk` is the trail of a launch whose rounds fit 32 bits.

## Main results

* `Launch.process_trail`, `Launch.process_walk` — every loop terminates with a `Walk`.
* `lane_walk_agrees` — the lanes consume the rounds the AIC produces, release
  exactly the slots it waits for, and read only offsets inside the array.
-/

namespace ChunkScaledDotKkt

open MachineInt

/-- `localRound & (SLOT_COUNT - 1)` -/
def slotIdOf (localRound : ℤ) : ℤ := localRound % SLOT_COUNT

/-- One round of a group as both sides identify it. -/
structure Round where
  localRound : ℤ
  slotId : ℤ
  chunkId : ℤ
  kvHeadId : ℤ
  deriving Repr, DecidableEq

namespace PackedGramMmadCubeStage

/-- The round of one turn of the AIC's task loop. -/
def round (tiling : ChunkScaledDotKktTilingData) (groupId localRound64 : ℤ) : Round :=
  let localRound := i32 localRound64
  let taskId := tiling.taskId groupId localRound64
  { localRound, slotId := slotIdOf localRound,
    chunkId := taskId.tdiv tiling.hg, kvHeadId := taskId.tmod tiling.hg }

/-- All turns of the AIC's task loop. -/
def rounds (tiling : ChunkScaledDotKktTilingData) (groupId : ℤ) : List Round :=
  (List.range (tiling.taskCount groupId).toNat).map fun localRound64 =>
    round tiling groupId (localRound64 : ℕ)

/-- Whether the AIC waits on the FREE flag of the round's slot. -/
def waitsFree (r : Round) : Bool := r.localRound ≥ SLOT_COUNT

/-- The indices of `chunk_offsets` that the AIC reads in a round. -/
def reads (r : Round) : List ℤ := [r.chunkId, r.chunkId + 1]

end PackedGramMmadCubeStage

namespace VectorStage

/-- What a lane's loop does: it evaluates the fuse test on a chunk, or calls one of
the two task bodies. -/
inductive LaneCall
  | canFuse (firstChunkId : ℤ)
  | pipelineTask (taskId groupId aivLane localRound : ℤ) (willReuseSlot : Bool)
  | adjacentFullChunk (kPair : Bool)
      (firstChunkId firstHeadId groupId localRound localTaskCount : ℤ)
  deriving Repr, DecidableEq

/-! ## The four loops -/

def processCyclic (tiling : ChunkScaledDotKktTilingData) (groupId aivLane : ℤ) (fuel : ℕ) :
    Option (List LaneCall) :=
  TraceLoop.loop
    (fun (taskId, _) => taskId < tiling.totalTaskCount)
    (fun (taskId, localRound) =>
      let willReuseSlot : Bool :=
        taskId + i32 (SLOT_COUNT * tiling.blockDim) < tiling.totalTaskCount
      ([.pipelineTask taskId groupId aivLane localRound willReuseSlot],
        (taskId + tiling.blockDim, i32 (localRound + 1))))
    fuel (groupId, 0)

def processGroupAligned (tiling : ChunkScaledDotKktTilingData) (groupId aivLane : ℤ)
    (fuel : ℕ) : Option (List LaneCall) :=
  let localTaskCount := scheduledTaskCount groupId tiling.totalTaskCount tiling.hg
    tiling.blockDim false true
  TraceLoop.loop
    (fun localRound64 => localRound64 < localTaskCount)
    (fun localRound64 =>
      let taskId := scheduledTaskId groupId localRound64 tiling.totalTaskCount tiling.hg
        tiling.blockDim false true
      let willReuseSlot : Bool := localRound64 + SLOT_COUNT < localTaskCount
      ([.pipelineTask taskId groupId aivLane (i32 localRound64) willReuseSlot],
        localRound64 + 1))
    fuel 0

def processGroupAlignedR3 (tiling : ChunkScaledDotKktTilingData) (offsets : ChunkOffsets)
    (kPair : Bool) (groupId firstRepeat : ℤ) (fuel : ℕ) : Option (List LaneCall) :=
  let kAivLane : ℤ := if kPair then 1 else 0
  let hg := tiling.hg
  let numChunks := tiling.totalTaskCount.tdiv hg
  let coresPerKvGroup := tiling.blockDim.tdiv hg
  let kvHeadId := groupId.tdiv coresPerKvGroup
  let coreInKvGroup := groupId - kvHeadId * coresPerKvGroup
  let chunksPerCore := numChunks.tdiv coresPerKvGroup
  let extraChunks := numChunks - chunksPerCore * coresPerKvGroup
  let chunkStart := coreInKvGroup * chunksPerCore +
    (if coreInKvGroup < extraChunks then coreInKvGroup else extraChunks)
  let localTaskCount := chunksPerCore + (if coreInKvGroup < extraChunks then 1 else 0)
  let chunkEnd := chunkStart + localTaskCount
  TraceLoop.loop
    (fun (chunkId, _) => chunkId < chunkEnd)
    (fun (chunkId, localRound) =>
      -- the fuse test is evaluated only when a second chunk is left
      let test := if chunkId + 1 < chunkEnd then [LaneCall.canFuse chunkId] else []
      if chunkId + 1 < chunkEnd ∧ canFuseAdjacentFullChunks tiling.t offsets chunkId then
        let firstHeadId := kvHeadId * 3 + firstRepeat
        (test ++ [.adjacentFullChunk kPair chunkId firstHeadId groupId localRound localTaskCount],
          (chunkId + 2, i32 (localRound + 2)))
      else
        let taskId := chunkId * hg + kvHeadId
        let willReuseSlot : Bool := localRound + SLOT_COUNT < localTaskCount
        (test ++ [.pipelineTask taskId groupId kAivLane localRound willReuseSlot],
          (chunkId + 1, i32 (localRound + 1))))
    fuel (chunkStart, 0)

/-- The counters of `ProcessChunkLocalR34`. -/
structure ChunkLocalState where
  ordinal : ℤ
  kvHeadId : ℤ
  chunkId : ℤ
  localRound : ℤ

/-- The step to the next KV head at the end of the turn. -/
def ChunkLocalState.wrap (numChunks : ℤ) (s : ChunkLocalState) : ChunkLocalState :=
  if s.chunkId ≥ numChunks then
    { s with kvHeadId := s.kvHeadId + 1, chunkId := s.chunkId - numChunks }
  else s

def processChunkLocalR34 (tiling : ChunkScaledDotKktTilingData) (offsets : ChunkOffsets)
    (kPair : Bool) (groupId aivLane repeats firstRepeat : ℤ) (fuel : ℕ) :
    Option (List LaneCall) :=
  let numChunks := tiling.totalTaskCount.tdiv tiling.hg
  let first := (tiling.totalTaskCount * groupId).tdiv tiling.blockDim
  let last := (tiling.totalTaskCount * (groupId + 1)).tdiv tiling.blockDim
  let localTaskCount := last - first
  TraceLoop.loop
    (fun s : ChunkLocalState => s.ordinal < last)
    (fun s =>
      let second := s.ordinal + 1 < last ∧ s.chunkId + 1 < numChunks
      let test := if second then [LaneCall.canFuse s.chunkId] else []
      if second ∧ canFuseAdjacentFullChunks tiling.t offsets s.chunkId then
        let firstHeadId := s.kvHeadId * repeats + firstRepeat
        (test ++ [.adjacentFullChunk kPair s.chunkId firstHeadId groupId s.localRound
            localTaskCount],
          ChunkLocalState.wrap numChunks
            { s with ordinal := s.ordinal + 2, localRound := i32 (s.localRound + 2),
                     chunkId := s.chunkId + 2 })
      else
        let taskId := s.chunkId * tiling.hg + s.kvHeadId
        let willReuseSlot : Bool := s.localRound + SLOT_COUNT < localTaskCount
        (test ++ [.pipelineTask taskId groupId aivLane s.localRound willReuseSlot],
          ChunkLocalState.wrap numChunks
            { s with ordinal := s.ordinal + 1, localRound := i32 (s.localRound + 1),
                     chunkId := s.chunkId + 1 }))
    fuel ⟨first, first.tdiv numChunks, first - first.tdiv numChunks * numChunks, 0⟩

/-- The loop that `Process` selects for an AIV, with two AIVs to a group. -/
def process (tiling : ChunkScaledDotKktTilingData) (offsets : ChunkOffsets) (aivId : ℤ)
    (fuel : ℕ) : Option (List LaneCall) :=
  let groupId := aivId.tdiv 2
  let aivLane := aivId.tmod 2
  if tiling.groupAligned then
    if tiling.numRepeat = 3 then
      if aivLane = 0 then processGroupAlignedR3 tiling offsets false groupId 0 fuel
      else processGroupAlignedR3 tiling offsets true groupId 1 fuel
    else processGroupAligned tiling groupId aivLane fuel
  else if tiling.numRepeat = 3 then
    if aivLane = 0 then processChunkLocalR34 tiling offsets false groupId aivLane 3 0 fuel
    else processChunkLocalR34 tiling offsets true groupId aivLane 3 1 fuel
  else processCyclic tiling groupId aivLane fuel

/-! ## What a call consumes -/

/-- A consumed round, with whether the lane releases its slot. -/
structure LaneRound extends Round where
  releases : Bool
  deriving Repr, DecidableEq

/-- The rounds a call consumes. -/
def LaneCall.rounds (tiling : ChunkScaledDotKktTilingData) : LaneCall → List LaneRound
  | .canFuse _ => []
  | .pipelineTask taskId _ _ localRound willReuseSlot =>
      [⟨⟨localRound, slotIdOf localRound, taskId.tdiv tiling.hg, taskId.tmod tiling.hg⟩,
        willReuseSlot⟩]
  | .adjacentFullChunk _ firstChunkId firstHeadId _ localRound localTaskCount =>
      let kvHeadId := firstHeadId.tdiv tiling.numRepeat
      let secondRound := i32 (localRound + 1)
      [⟨⟨localRound, slotIdOf localRound, firstChunkId, kvHeadId⟩,
        localRound + SLOT_COUNT < localTaskCount⟩,
       ⟨⟨secondRound, slotIdOf secondRound, firstChunkId + 1, kvHeadId⟩,
        secondRound + SLOT_COUNT < localTaskCount⟩]

/-- The indices of `chunk_offsets` that a call reads. -/
def LaneCall.reads (tiling : ChunkScaledDotKktTilingData) : LaneCall → List ℤ
  | .canFuse firstChunkId => [firstChunkId, firstChunkId + 1, firstChunkId + 2]
  | .pipelineTask taskId _ _ _ _ => [taskId.tdiv tiling.hg, taskId.tdiv tiling.hg + 1]
  | .adjacentFullChunk _ firstChunkId _ _ _ _ => [firstChunkId, firstChunkId + 1]

end VectorStage

open VectorStage

namespace Launch

variable (L : Launch) (offsets : ChunkOffsets)

/-- The call sequences from round `r` of a group to its last round: fuse tests inside
the array, single rounds, and pairs of adjacent chunks of one KV head that the fuse
test accepts. -/
inductive Walk (g lane : ℕ) : ℕ → List LaneCall → Prop
  | done : Walk g lane (L.count g) []
  | test {r : ℕ} {c : ℤ} {calls : List LaneCall} (h0 : 0 ≤ c) (hc : c + 2 ≤ L.chunks)
      (rest : Walk g lane r calls) : Walk g lane r (.canFuse c :: calls)
  | single {r : ℕ} {calls : List LaneCall} (hr : r < L.count g)
      (rest : Walk g lane (r + 1) calls) :
      Walk g lane r (.pipelineTask (L.task g r) g lane r (decide (r + 2 < L.count g)) :: calls)
  | pair {r : ℕ} {calls : List LaneCall} (hr : r + 1 < L.count g)
      (hrep : L.tiling.numRepeat = 3)
      (hplace : L.place g (r + 1) = ((L.place g r).1 + 1, (L.place g r).2))
      (hfuse : canFuseAdjacentFullChunks L.tiling.t offsets (L.place g r).1 = true)
      (rest : Walk g lane (r + 2) calls) :
      Walk g lane r (.adjacentFullChunk (lane == 1) (L.place g r).1
        ((L.place g r).2 * 3 + lane : ℕ) g r (L.count g) :: calls)

/-- A walk whose round numbers are kept in 32 bits and whose reuse flags are those of the
loop, for any number of rounds. -/
inductive Trail (reuse : ℕ → Bool) (g lane : ℕ) : ℕ → List LaneCall → Prop
  | done : Trail reuse g lane (L.count g) []
  | test {r : ℕ} {c : ℤ} {calls : List LaneCall} (h0 : 0 ≤ c) (hc : c + 2 ≤ L.chunks)
      (rest : Trail reuse g lane r calls) : Trail reuse g lane r (.canFuse c :: calls)
  | single {r : ℕ} {calls : List LaneCall} (hr : r < L.count g)
      (rest : Trail reuse g lane (r + 1) calls) :
      Trail reuse g lane r (.pipelineTask (L.task g r) g lane (i32 r) (reuse r) :: calls)
  | pair {r : ℕ} {calls : List LaneCall} (hr : r + 1 < L.count g)
      (hrep : L.tiling.numRepeat = 3)
      (hplace : L.place g (r + 1) = ((L.place g r).1 + 1, (L.place g r).2))
      (hfuse : canFuseAdjacentFullChunks L.tiling.t offsets (L.place g r).1 = true)
      (rest : Trail reuse g lane (r + 2) calls) :
      Trail reuse g lane r (.adjacentFullChunk (lane == 1) (L.place g r).1
        ((L.place g r).2 * 3 + lane : ℕ) g (i32 r) (L.count g) :: calls)

/-! ## The loops emit trails -/

/-- Round numbers below `2^31` are their own 32-bit values. -/
theorem i32_round {r n : ℕ} (hn : n < 2147483648) (hr : r ≤ n) : i32 (r : ℤ) = r :=
  i32_eq_self (by omega) (by omega)

/-- A 32-bit round number advanced by `k`. -/
theorem i32_advance (r k : ℕ) : i32 (i32 r + k) = i32 ((r + k : ℕ) : ℤ) := by
  unfold i32
  omega

/-- A loop that evaluates the fuse test under a condition. -/
theorem Trail.ifTest {reuse : ℕ → Bool} {g lane r : ℕ} {c : ℤ} {calls : List LaneCall} {p : Prop}
    [Decidable p] (hc : p → 0 ≤ c ∧ c + 2 ≤ L.chunks)
    (rest : L.Trail offsets reuse g lane r calls) :
    L.Trail offsets reuse g lane r ((if p then [.canFuse c] else []) ++ calls) := by
  split
  · rename_i hp
    exact .test (hc hp).1 (hc hp).2 rest
  · exact rest

/-- Fewer than `2^31` rounds whose flags announce the round after next are a walk. -/
theorem Trail.walk {reuse : ℕ → Bool} {g lane r : ℕ} {calls : List LaneCall}
    (h : L.Trail offsets reuse g lane r calls) (hn : L.count g < 2147483648)
    (hreuse : ∀ r < L.count g, reuse r = decide (r + 2 < L.count g)) :
    L.Walk offsets g lane r calls := by
  induction h with
  | done => exact .done
  | test h0 hc rest ih => exact .test h0 hc ih
  | single hr rest ih =>
      rw [i32_round hn hr.le, hreuse _ hr]
      exact .single hr ih
  | pair hr hrep hplace hfuse rest ih =>
      rw [i32_round hn (by omega)]
      exact .pair hr hrep hplace hfuse ih

/-- `kAivLane` of the lane template. -/
theorem aivLane_eq {lane : ℕ} (hlane : lane < 2) :
    (if (lane == 1) = true then (1 : ℤ) else 0) = lane := by
  obtain rfl | rfl : lane = 0 ∨ lane = 1 := by omega
  · rfl
  · rfl

theorem task_eq (g r : ℕ) : L.task g r = (L.place g r).1 * L.kvHeads + (L.place g r).2 := rfl

theorem numChunks_eq : L.tiling.totalTaskCount.tdiv L.tiling.hg = L.chunks := by
  rw [L.total_eq, L.hg_eq, ← Int.ofNat_tdiv, Nat.mul_div_cancel _ L.kvHeads_pos]

/-- `willReuseSlot` of the cyclic loop. -/
def reuseCyclic (g r : ℕ) : Bool :=
  (L.task g r : ℤ) + i32 (SLOT_COUNT * L.tiling.blockDim) < L.tiling.totalTaskCount

/-- `willReuseSlot` of the group-aligned loop, whose counter has 64 bits. -/
def reuseAligned (g r : ℕ) : Bool := (r : ℤ) + SLOT_COUNT < L.count g

/-- `willReuseSlot` of the loops for three heads, whose counter has 32 bits. -/
def reuseR3 (g r : ℕ) : Bool := i32 r + SLOT_COUNT < L.count g

theorem reuseAligned_eq (g r : ℕ) : L.reuseAligned g r = decide (r + 2 < L.count g) := by
  have hlt : (r : ℤ) + 2 < L.count g ↔ r + 2 < L.count g := by omega
  simp only [reuseAligned, SLOT_COUNT, hlt]

theorem reuseR3_eq {g r : ℕ} (hn : L.count g < 2147483648) (hr : r < L.count g) :
    L.reuseR3 g r = decide (r + 2 < L.count g) := by
  rw [← reuseAligned_eq, reuseR3, i32_round hn hr.le]
  rfl

section Cyclic

variable {L} {g lane : ℕ} (hs : L.schedule = .cyclic)
include hs

theorem task_cyclic (r : ℕ) : L.task g r = g + r * L.groups := by
  have hplace : L.task g r = (g + r * L.groups) / L.kvHeads * L.kvHeads +
      (g + r * L.groups) % L.kvHeads := by
    simp only [task, Schedule.task, hs, Schedule.place]
  rw [hplace]
  exact Nat.div_add_mod' _ _

theorem lt_count_cyclic {r : ℕ} : r < L.count g ↔ L.task g r < L.chunks * L.kvHeads := by
  rw [task_cyclic hs]
  simp only [count, hs, Schedule.count]
  exact Partition.lt_cyclicCount_iff L.groups_pos

theorem total_cyclic (r : ℕ) :
    ((L.task g r : ℕ) : ℤ) < L.tiling.totalTaskCount ↔ r < L.count g := by
  rw [lt_count_cyclic hs, L.total_eq]
  exact Nat.cast_lt

theorem next_cyclic (r : ℕ) :
    ((L.task g r : ℕ) : ℤ) + L.tiling.blockDim = (L.task g (r + 1) : ℕ) := by
  rw [task_cyclic hs, task_cyclic hs, L.blockDim_eq, Nat.succ_mul]
  omega

theorem processCyclic_trail :
    ∃ calls, (∀ fuel, L.count g < fuel →
      processCyclic L.tiling g lane fuel = some calls) ∧
      L.Trail offsets (L.reuseCyclic g) g lane 0 calls := by
  unfold processCyclic
  refine TraceLoop.loop_from_start (fun r => ((L.task g r : ℤ), i32 r)) (L.count g)
    (L.Trail offsets (L.reuseCyclic g) g lane) ?_ ?_ .done ?_
  · rw [task_cyclic hs]
    simp [i32]
  · intro r _
    simp only [total_cyclic hs]
  · intro r hr
    refine ⟨r + 1, by omega, hr, ?_, ?_⟩
    · exact Prod.ext (next_cyclic hs r) (i32_advance r 1)
    · intro calls hcalls
      exact .single hr hcalls

/-- The flag of the cyclic loop announces the round after next. -/
theorem reuseCyclic_eq (hb : 2 * L.groups < 2147483648) (r : ℕ) :
    L.reuseCyclic g r = decide (r + 2 < L.count g) := by
  have hprod : i32 (SLOT_COUNT * L.tiling.blockDim) = 2 * L.tiling.blockDim := by
    rw [L.blockDim_eq]
    exact i32_eq_self (by unfold SLOT_COUNT; omega) (by unfold SLOT_COUNT; omega)
  have h1 := next_cyclic hs (g := g) r
  have h2 := next_cyclic hs (g := g) (r + 1)
  have hlt : ((L.task g r : ℕ) : ℤ) + 2 * L.tiling.blockDim < L.tiling.totalTaskCount ↔
      r + 2 < L.count g := by
    rw [← total_cyclic hs, ← h2, ← h1]
    omega
  simp only [reuseCyclic, hprod, hlt]

end Cyclic

section GroupAligned

variable {L} {g lane : ℕ} (hs : L.schedule = .groupAligned)
include hs

theorem count_groupAligned : scheduledTaskCount g L.tiling.totalTaskCount L.tiling.hg
    L.tiling.blockDim false true = L.count g := by
  rw [L.total_eq, L.hg_eq, L.blockDim_eq, scheduledTaskCount_eq L.kvHeads_pos, count, hs]
  rfl

theorem task_groupAligned (r : ℕ) : scheduledTaskId g r L.tiling.totalTaskCount L.tiling.hg
    L.tiling.blockDim false true = L.task g r := by
  rw [L.total_eq, L.hg_eq, L.blockDim_eq, scheduledTaskId_eq L.kvHeads_pos, task, hs]
  rfl

theorem processGroupAligned_trail :
    ∃ calls, (∀ fuel, L.count g < fuel →
      processGroupAligned L.tiling g lane fuel = some calls) ∧
      L.Trail offsets (L.reuseAligned g) g lane 0 calls := by
  unfold processGroupAligned
  simp only [count_groupAligned hs]
  refine TraceLoop.loop_from_start (fun r => (r : ℤ)) (L.count g)
    (L.Trail offsets (L.reuseAligned g) g lane) rfl ?_ .done ?_
  · intro r _
    simp only [Nat.cast_lt]
  · intro r hr
    refine ⟨r + 1, by omega, hr, rfl, ?_⟩
    intro calls hcalls
    simp only [task_groupAligned hs]
    exact .single hr hcalls

/-- The chunk and the KV head of a round inside a group's own range. -/
theorem place_groupAligned (r : ℕ) : L.place g r = ((L.place g 0).1 + r, (L.place g 0).2) := by
  simp only [place, hs, Schedule.place, Nat.add_zero]

theorem processGroupAlignedR3_trail (hrep : L.tiling.numRepeat = 3) (hg : g < L.groups)
    (hlane : lane < 2) :
    ∃ calls, (∀ fuel, L.count g < fuel →
      processGroupAlignedR3 L.tiling offsets (lane == 1) g lane fuel = some calls) ∧
      L.Trail offsets (L.reuseR3 g) g lane 0 calls := by
  have hcores : L.tiling.blockDim.tdiv L.tiling.hg = ((L.groups / L.kvHeads : ℕ) : ℤ) := by
    rw [L.blockDim_eq, L.hg_eq, Int.ofNat_tdiv]
  have hkv : ((g / (L.groups / L.kvHeads) : ℕ) : ℤ) = (L.place g 0).2 := by
    simp only [place, hs, Schedule.place]
  have hstart : ((g % (L.groups / L.kvHeads) * (L.chunks / (L.groups / L.kvHeads)) +
      min (g % (L.groups / L.kvHeads)) (L.chunks % (L.groups / L.kvHeads)) : ℕ) : ℤ) =
      (L.place g 0).1 := by
    simp only [place, hs, Schedule.place, Nat.add_zero]
  have hcount : ((L.chunks / (L.groups / L.kvHeads) : ℕ) : ℤ) +
      (if ((g % (L.groups / L.kvHeads) : ℕ) : ℤ) <
        ((L.chunks % (L.groups / L.kvHeads) : ℕ) : ℤ) then 1 else 0) = L.count g := by
    simp only [count, hs, Schedule.count, Nat.cast_lt]
    split <;> simp
  unfold processGroupAlignedR3
  simp only [numChunks_eq, hcores, ← Int.ofNat_tdiv, sub_div_mul_cast, chunkStart_cast]
  simp only [hkv, hstart, hcount]
  refine TraceLoop.loop_from_start (fun r => (((L.place g r).1 : ℤ), i32 r)) (L.count g)
    (L.Trail offsets (L.reuseR3 g) g lane) rfl ?_ .done ?_
  · intro r _
    rw [place_groupAligned hs r]
    simp
  · intro r hr
    have hlt := L.place_lt hg hr
    have htask : ((L.place g r).1 : ℤ) * L.tiling.hg + ((L.place g 0).2 : ℤ) = L.task g r := by
      rw [L.hg_eq, task_eq, place_groupAligned hs r]
      push_cast
      rfl
    have hsecond : ((L.place g r).1 : ℤ) + 1 < (L.place g 0).1 + L.count g ↔
        r + 1 < L.count g := by
      rw [place_groupAligned hs r]
      omega
    have htest : r + 1 < L.count g → 0 ≤ ((L.place g r).1 : ℤ) ∧
        ((L.place g r).1 : ℤ) + 2 ≤ L.chunks := by
      intro h
      have := (L.place_lt hg h).1
      rw [place_groupAligned hs] at this ⊢
      omega
    have hhead : ((L.place g 0).2 : ℤ) * 3 + lane = (((L.place g r).2 * 3 + lane : ℕ) : ℤ) := by
      rw [place_groupAligned hs r]
      push_cast
      rfl
    simp only [hsecond, htask, hhead]
    split
    · rename_i hfuse
      refine ⟨r + 2, by omega, by omega, ?_, ?_⟩
      · rw [place_groupAligned hs r, place_groupAligned hs (r + 2)]
        exact Prod.ext (by push_cast; ring) (i32_advance r 2)
      · intro calls hcalls
        rw [List.append_assoc]
        refine .ifTest L offsets htest (.pair hfuse.1 hrep ?_ hfuse.2 hcalls)
        rw [place_groupAligned hs r, place_groupAligned hs (r + 1), Nat.add_assoc]
    · refine ⟨r + 1, by omega, hr, ?_, ?_⟩
      · rw [place_groupAligned hs r, place_groupAligned hs (r + 1)]
        exact Prod.ext (by push_cast; ring) (i32_advance r 1)
      · intro calls hcalls
        rw [List.append_assoc, aivLane_eq hlane]
        exact .ifTest L offsets htest (.single hr hcalls)

end GroupAligned

/-- The wrap leaves the round number alone. -/
theorem wrap_localRound (numChunks : ℤ) (s : ChunkLocalState) (localRound : ℤ) :
    ChunkLocalState.wrap numChunks { s with localRound } =
      { ChunkLocalState.wrap numChunks s with localRound } := by
  unfold ChunkLocalState.wrap
  split <;> rfl

section ChunkLocal

variable {L} {g lane : ℕ} (hs : L.schedule = .chunkLocal)
include hs

/-- The first ordinal of a group's range. -/
theorem place_chunkLocal (r : ℕ) : L.place g r =
    ((L.chunks * L.kvHeads * g / L.groups + r) -
      (L.chunks * L.kvHeads * g / L.groups + r) / L.chunks * L.chunks,
     (L.chunks * L.kvHeads * g / L.groups + r) / L.chunks) := by
  simp only [place, hs, Schedule.place]

theorem count_chunkLocal : L.count g = L.chunks * L.kvHeads * (g + 1) / L.groups -
    L.chunks * L.kvHeads * g / L.groups := by
  simp only [count, hs, Schedule.count]

/-- The loop's counters at round `r`. -/
def chunkLocalState (L : Launch) (g r : ℕ) : ChunkLocalState where
  ordinal := ((L.chunks * L.kvHeads * g / L.groups + r : ℕ) : ℤ)
  kvHeadId := (L.place g r).2
  chunkId := (L.place g r).1
  localRound := r

/-- Counters advanced inside one KV head or to its last chunk wrap to the counters of
the later round. -/
theorem wrap_chunkLocalState {r k : ℕ} (hk : (L.place g r).1 + k ≤ L.chunks) :
    ChunkLocalState.wrap L.chunks
      ⟨((L.chunks * L.kvHeads * g / L.groups + r : ℕ) : ℤ) + k, (L.place g r).2,
        ((L.place g r).1 : ℤ) + k, ((r + k : ℕ) : ℤ)⟩ = chunkLocalState L g (r + k) := by
  have hm := L.chunks_pos
  have hmod : ∀ x, x - x / L.chunks * L.chunks = x % L.chunks := by
    intro x
    have := Nat.div_add_mod' x L.chunks
    omega
  simp only [chunkLocalState, place_chunkLocal hs, hmod, ChunkLocalState.wrap,
    ← Nat.add_assoc] at hk ⊢
  generalize L.chunks * L.kvHeads * g / L.groups + r = o at hk ⊢
  have hdecomp : o + k = (o % L.chunks + k) + L.chunks * (o / L.chunks) := by
    have := Nat.mod_add_div o L.chunks
    omega
  by_cases hwrap : o % L.chunks + k = L.chunks
  · have hdiv : (o + k) / L.chunks = o / L.chunks + 1 := by
      rw [hdecomp, hwrap, Nat.add_mul_div_left _ _ hm, Nat.div_self hm, Nat.add_comm]
    have hrem : (o + k) % L.chunks = 0 := by
      rw [hdecomp, hwrap, Nat.add_mul_mod_self_left, Nat.mod_self]
    have hwrap' : ((o % L.chunks : ℕ) : ℤ) + k = L.chunks := by exact_mod_cast hwrap
    rw [if_pos (by omega), hdiv, hrem, hwrap', sub_self]
    push_cast
    rfl
  · have hlt : o % L.chunks + k < L.chunks := by omega
    have hdiv : (o + k) / L.chunks = o / L.chunks := by
      rw [hdecomp, Nat.add_mul_div_left _ _ hm, Nat.div_eq_of_lt hlt, Nat.zero_add]
    have hrem : (o + k) % L.chunks = o % L.chunks + k := by
      rw [hdecomp, Nat.add_mul_mod_self_left, Nat.mod_eq_of_lt hlt]
    have hlt' : ((o % L.chunks : ℕ) : ℤ) + k < L.chunks := by exact_mod_cast hlt
    rw [if_neg (by omega), hdiv, hrem]
    push_cast
    rfl

/-- Inside one KV head the next ordinal is the next chunk. -/
theorem place_succ_chunkLocal {r : ℕ} (h : (L.place g r).1 + 1 < L.chunks) :
    L.place g (r + 1) = ((L.place g r).1 + 1, (L.place g r).2) := by
  have hwrap := wrap_chunkLocalState (k := 1) hs h.le
  have hno : ¬ ((L.place g r).1 : ℤ) + (1 : ℕ) ≥ L.chunks := by omega
  simp only [ChunkLocalState.wrap, hno, if_false, chunkLocalState, ChunkLocalState.mk.injEq]
    at hwrap
  exact Prod.ext (by omega) (by omega)

/-- The loop's counters at round `r`, its round number in 32 bits, after `k` more rounds. -/
theorem wrap_trailState {r k : ℕ} (hk : (L.place g r).1 + k ≤ L.chunks) :
    ChunkLocalState.wrap L.chunks
      ⟨((L.chunks * L.kvHeads * g / L.groups + r : ℕ) : ℤ) + k, (L.place g r).2,
        ((L.place g r).1 : ℤ) + k, i32 (i32 r + k)⟩ =
      { chunkLocalState L g (r + k) with localRound := i32 ((r + k : ℕ) : ℤ) } := by
  rw [i32_advance, ← wrap_chunkLocalState hs hk]
  exact wrap_localRound L.chunks
    ⟨((L.chunks * L.kvHeads * g / L.groups + r : ℕ) : ℤ) + k, (L.place g r).2,
      ((L.place g r).1 : ℤ) + k, ((r + k : ℕ) : ℤ)⟩ _

theorem processChunkLocalR34_trail (hrep : L.tiling.numRepeat = 3) (hg : g < L.groups) :
    ∃ calls, (∀ fuel, L.count g < fuel →
      processChunkLocalR34 L.tiling offsets (lane == 1) g lane 3 lane fuel = some calls) ∧
      L.Trail offsets (L.reuseR3 g) g lane 0 calls := by
  have hle : L.chunks * L.kvHeads * g / L.groups ≤ L.chunks * L.kvHeads * (g + 1) / L.groups :=
    Nat.div_le_div_right (Nat.mul_le_mul_left _ (Nat.le_succ g))
  have hbound : ∀ x : ℕ, (L.tiling.totalTaskCount * (x : ℤ)).tdiv L.tiling.blockDim =
      ((L.chunks * L.kvHeads * x / L.groups : ℕ) : ℤ) := by
    intro x
    rw [L.total_eq, L.blockDim_eq, ← Nat.cast_mul, Int.ofNat_tdiv]
  have hsucc : (g : ℤ) + 1 = ((g + 1 : ℕ) : ℤ) := by push_cast; rfl
  have hlast : ((L.chunks * L.kvHeads * (g + 1) / L.groups : ℕ) : ℤ) =
      ((L.chunks * L.kvHeads * g / L.groups : ℕ) : ℤ) + L.count g := by
    rw [count_chunkLocal hs]
    omega
  unfold processChunkLocalR34
  simp only [numChunks_eq, hsucc, hbound, hlast]
  refine TraceLoop.loop_from_start (fun r => { chunkLocalState L g r with localRound := i32 r })
    (L.count g) (L.Trail offsets (L.reuseR3 g) g lane) ?_ ?_ .done ?_
  · have hdiv : ((L.chunks * L.kvHeads * g / L.groups : ℕ) : ℤ).tdiv L.chunks =
        ((L.chunks * L.kvHeads * g / L.groups / L.chunks : ℕ) : ℤ) := (Int.ofNat_tdiv _ _).symm
    have hle := Nat.div_mul_le_self (L.chunks * L.kvHeads * g / L.groups) L.chunks
    simp only [chunkLocalState, place_chunkLocal hs, Nat.add_zero, hdiv, Nat.cast_sub hle,
      Nat.cast_mul, Nat.cast_zero]
    rfl
  · intro r _
    simp [chunkLocalState]
  · intro r hr
    have hlt := L.place_lt hg hr
    have htask : ((L.place g r).1 : ℤ) * L.tiling.hg + ((L.place g r).2 : ℤ) = L.task g r := by
      rw [L.hg_eq, task_eq]
      push_cast
      rfl
    have hsecond : ((((L.chunks * L.kvHeads * g / L.groups + r : ℕ) : ℤ) + 1 <
        ((L.chunks * L.kvHeads * g / L.groups : ℕ) : ℤ) + L.count g) ∧
        ((L.place g r).1 : ℤ) + 1 < L.chunks) ↔
        (r + 1 < L.count g ∧ (L.place g r).1 + 1 < L.chunks) := by
      rw [Nat.cast_add]
      omega
    have htest : r + 1 < L.count g ∧ (L.place g r).1 + 1 < L.chunks →
        0 ≤ ((L.place g r).1 : ℤ) ∧ ((L.place g r).1 : ℤ) + 2 ≤ L.chunks := by
      omega
    have hhead : ((L.place g r).2 : ℤ) * 3 + lane = (((L.place g r).2 * 3 + lane : ℕ) : ℤ) := by
      push_cast
      rfl
    simp only [chunkLocalState, add_sub_cancel_left, hsecond, htask, hhead]
    split
    · rename_i hfuse
      refine ⟨r + 2, by omega, by omega, ?_, ?_⟩
      · exact wrap_trailState (k := 2) hs (by omega)
      · intro calls hcalls
        rw [List.append_assoc]
        exact .ifTest L offsets htest
          (.pair hfuse.1.1 hrep (place_succ_chunkLocal hs hfuse.1.2) hfuse.2 hcalls)
    · refine ⟨r + 1, by omega, hr, ?_, ?_⟩
      · exact wrap_trailState (k := 1) hs (by omega)
      · intro calls hcalls
        rw [List.append_assoc]
        exact .ifTest L offsets htest (.single hr hcalls)

end ChunkLocal

/-! ## The walk of `Process` -/

theorem schedule_cases : (L.tiling.groupAligned = true ∧ L.schedule = .groupAligned) ∨
    (L.tiling.groupAligned = false ∧ L.tiling.numRepeat = 3 ∧ L.schedule = .chunkLocal) ∨
    (L.tiling.groupAligned = false ∧ L.tiling.numRepeat ≠ 3 ∧ L.schedule = .cyclic) := by
  unfold schedule Schedule.ofFlags ChunkScaledDotKktTilingData.chunkLocal
  cases L.tiling.groupAligned
  · by_cases hrep : L.tiling.numRepeat = 3
    · simp [hrep]
    · simp [hrep]
  · simp

/-- The reuse flag of the loop that `Process` selects. -/
def reuse (g r : ℕ) : Bool :=
  match L.schedule with
  | .cyclic => L.reuseCyclic g r
  | .groupAligned => if L.tiling.numRepeat = 3 then L.reuseR3 g r else L.reuseAligned g r
  | .chunkLocal => L.reuseR3 g r

/-- **Every lane's loop terminates with a trail** of its group's rounds. -/
theorem process_trail {g lane : ℕ} (hg : g < L.groups) (hlane : lane < 2) :
    ∃ calls, (∀ fuel, L.count g < fuel →
      process L.tiling offsets (2 * g + lane : ℕ) fuel = some calls) ∧
      L.Trail offsets (L.reuse g) g lane 0 calls := by
  have hgroup : ((2 * g + lane : ℕ) : ℤ).tdiv 2 = g := by
    rw [Int.tdiv_eq_ediv_of_nonneg (by omega)]
    omega
  have hmod : ((2 * g + lane : ℕ) : ℤ).tmod 2 = lane := by
    rw [Int.tmod_eq_emod_of_nonneg (by omega)]
    omega
  unfold process
  simp only [hgroup, hmod]
  rcases L.schedule_cases with ⟨hflag, hs⟩ | ⟨hflag, hrep, hs⟩ | ⟨hflag, hrep, hs⟩
  · simp only [hflag, if_true]
    by_cases hrep : L.tiling.numRepeat = 3
    · have hreuse : L.reuse g = L.reuseR3 g := by
        ext r
        simp [reuse, hs, hrep]
      have htrail := processGroupAlignedR3_trail offsets hs hrep hg hlane
      rw [hreuse]
      simp only [hrep, if_true]
      obtain rfl | rfl : lane = 0 ∨ lane = 1 := by omega
      · exact htrail
      · exact htrail
    · have hreuse : L.reuse g = L.reuseAligned g := by
        ext r
        simp [reuse, hs, hrep]
      rw [hreuse]
      simp only [hrep, if_false]
      exact processGroupAligned_trail offsets hs
  · have hreuse : L.reuse g = L.reuseR3 g := by
      ext r
      simp [reuse, hs]
    have htrail := @processChunkLocalR34_trail L offsets g lane hs hrep hg
    rw [hreuse]
    simp only [hflag, hrep, if_true, Bool.false_eq_true, if_false]
    obtain rfl | rfl : lane = 0 ∨ lane = 1 := by omega
    · exact htrail
    · exact htrail
  · have hreuse : L.reuse g = L.reuseCyclic g := by
      ext r
      simp [reuse, hs]
    rw [hreuse]
    simp only [hflag, hrep, Bool.false_eq_true, if_false]
    exact processCyclic_trail offsets hs

/-- In range, every loop's flag announces the round after next. -/
theorem reuse_eq {g r : ℕ} (hb : 2 * L.groups < 2147483648) (hn : L.count g < 2147483648)
    (hr : r < L.count g) : L.reuse g r = decide (r + 2 < L.count g) := by
  cases hs : L.schedule with
  | cyclic =>
      simp only [reuse, hs]
      exact reuseCyclic_eq hs hb r
  | groupAligned =>
      simp only [reuse, hs]
      by_cases hrep : L.tiling.numRepeat = 3
      · rw [if_pos hrep, L.reuseR3_eq hn hr]
      · rw [if_neg hrep, L.reuseAligned_eq]
  | chunkLocal =>
      simp only [reuse, hs]
      exact L.reuseR3_eq hn hr

/-- **Every lane's loop terminates with a walk** of its group's rounds. -/
theorem process_walk {g lane : ℕ} (hg : g < L.groups) (hlane : lane < 2)
    (hb : 2 * L.groups < 2147483648) (hn : L.count g < 2147483648) :
    ∃ calls, (∀ fuel, L.count g < fuel →
      process L.tiling offsets (2 * g + lane : ℕ) fuel = some calls) ∧
      L.Walk offsets g lane 0 calls := by
  obtain ⟨calls, hrun, htrail⟩ := L.process_trail offsets hg hlane
  exact ⟨calls, hrun, htrail.walk L offsets hn fun r hr => L.reuse_eq hb hn hr⟩

end Launch

/-! ## Agreement -/

namespace Launch

variable {L : Launch} {offsets : ChunkOffsets} {g : ℕ}

/-- The round of a group that both sides identify by its number. -/
def round (L : Launch) (g r : ℕ) : Round where
  localRound := r
  slotId := slotIdOf r
  chunkId := (L.place g r).1
  kvHeadId := (L.place g r).2

theorem task_tdiv_tmod {r : ℕ} (hg : g < L.groups) (hr : r < L.count g) :
    ((L.task g r : ℕ) : ℤ).tdiv L.tiling.hg = (L.place g r).1 ∧
      ((L.task g r : ℕ) : ℤ).tmod L.tiling.hg = (L.place g r).2 := by
  obtain ⟨h1, h2⟩ := L.task_div_mod hg hr
  rw [L.hg_eq, ← Int.ofNat_tdiv, ← Int.ofNat_tmod, h1, h2]
  exact ⟨rfl, rfl⟩

theorem aicRound_eq {r : ℕ} (hg : g < L.groups) (hr : r < L.count g)
    (hn : L.count g < 2147483648) :
    PackedGramMmadCubeStage.round L.tiling g r = L.round g r := by
  obtain ⟨h1, h2⟩ := task_tdiv_tmod hg hr
  simp only [PackedGramMmadCubeStage.round, L.taskId_eq, i32_round hn hr.le, h1, h2, round]

/-- The AIC produces the rounds of its group in order. -/
theorem aicRounds_eq (hg : g < L.groups) (hn : L.count g < 2147483648) :
    PackedGramMmadCubeStage.rounds L.tiling g = (List.range (L.count g)).map (L.round g) := by
  unfold PackedGramMmadCubeStage.rounds
  rw [L.taskCount_eq, Int.toNat_natCast]
  refine List.map_congr_left ?_
  intro r hr
  exact aicRound_eq hg (List.mem_range.mp hr) hn

/-- The round of a group with the release rule of the lanes. -/
def laneRound (L : Launch) (g r : ℕ) : LaneRound :=
  { L.round g r with releases := decide (r + 2 < L.count g) }

/-- The pair call consumes two rounds of one KV head. -/
theorem pair_rounds {lane r : ℕ} (hlane : lane < 2) (hr : r + 1 < L.count g)
    (hn : L.count g < 2147483648) (hrep : L.tiling.numRepeat = 3)
    (hplace : L.place g (r + 1) = ((L.place g r).1 + 1, (L.place g r).2)) :
    (LaneCall.adjacentFullChunk (lane == 1) (L.place g r).1
      ((L.place g r).2 * 3 + lane : ℕ) g r (L.count g)).rounds L.tiling =
      [L.laneRound g r, L.laneRound g (r + 1)] := by
  have hkv : (((L.place g r).2 * 3 + lane : ℕ) : ℤ).tdiv 3 = (L.place g r).2 := by
    rw [Int.tdiv_eq_ediv_of_nonneg (by omega)]
    omega
  have hnext : i32 ((r : ℤ) + 1) = ((r + 1 : ℕ) : ℤ) := i32_round hn hr.le
  have hreuse : (r : ℤ) + SLOT_COUNT < L.count g ↔ r + 2 < L.count g := by
    unfold SLOT_COUNT
    omega
  have hreuse' : ((r + 1 : ℕ) : ℤ) + SLOT_COUNT < L.count g ↔ r + 1 + 2 < L.count g := by
    unfold SLOT_COUNT
    omega
  simp only [LaneCall.rounds, hrep, hkv, hnext, hreuse, hreuse', laneRound, round, hplace]
  rfl

/-- **A walk consumes the rounds of its group in order.** -/
theorem Walk.rounds_eq {lane r : ℕ} {calls : List LaneCall} (h : L.Walk offsets g lane r calls)
    (hg : g < L.groups) (hlane : lane < 2) (hn : L.count g < 2147483648) :
    calls.flatMap (LaneCall.rounds L.tiling) =
      (List.range' r (L.count g - r)).map (L.laneRound g) := by
  induction h with
  | done => simp
  | test h0 hc rest ih => simpa [LaneCall.rounds] using ih
  | @single r calls hr rest ih =>
      obtain ⟨h1, h2⟩ := task_tdiv_tmod hg hr
      have hlen : L.count g - r = (L.count g - (r + 1)) + 1 := by omega
      rw [List.flatMap_cons, ih, hlen, List.range'_succ, List.map_cons]
      simp only [LaneCall.rounds, h1, h2]
      rfl
  | @pair r calls hr hrep hplace hfuse rest ih =>
      have hlen : L.count g - r = (L.count g - (r + 2)) + 1 + 1 := by omega
      rw [List.flatMap_cons, ih, hlen, List.range'_succ, List.range'_succ, List.map_cons,
        List.map_cons, pair_rounds hlane hr hn hrep hplace]
      rfl

/-- A walk reads only offsets inside the array. -/
theorem Walk.reads_le {lane r : ℕ} {calls : List LaneCall} (h : L.Walk offsets g lane r calls)
    (hg : g < L.groups) :
    ∀ c ∈ calls.flatMap (LaneCall.reads L.tiling), 0 ≤ c ∧ c ≤ L.chunks := by
  induction h with
  | done => simp
  | test h0 hc rest ih =>
      intro c hmem
      rw [List.flatMap_cons, List.mem_append] at hmem
      rcases hmem with hmem | hmem
      · simp only [LaneCall.reads, List.mem_cons, List.not_mem_nil, or_false] at hmem
        omega
      · exact ih c hmem
  | @single r calls hr rest ih =>
      intro c hmem
      rw [List.flatMap_cons, List.mem_append] at hmem
      rcases hmem with hmem | hmem
      · have hlt := (L.place_lt hg hr).1
        simp only [LaneCall.reads, (task_tdiv_tmod hg hr).1, List.mem_cons, List.not_mem_nil,
          or_false] at hmem
        omega
      · exact ih c hmem
  | @pair r calls hr hrep hplace hfuse rest ih =>
      intro c hmem
      rw [List.flatMap_cons, List.mem_append] at hmem
      rcases hmem with hmem | hmem
      · have hlt := (L.place_lt hg hr).1
        rw [hplace] at hlt
        simp only [LaneCall.reads, List.mem_cons, List.not_mem_nil, or_false] at hmem
        omega
      · exact ih c hmem

end Launch

/-- The rounds a lane's calls consume against those the AIC produces. -/
structure WalkAgrees (tiling : ChunkScaledDotKktTilingData) (groupId : ℤ)
    (calls : List LaneCall) : Prop where
  /-- The same rounds, slots, chunks and KV heads in the same order. -/
  rounds_eq : (calls.flatMap (LaneCall.rounds tiling)).map LaneRound.toRound =
    PackedGramMmadCubeStage.rounds tiling groupId
  /-- A slot is released exactly when the AIC waits for it two rounds later. -/
  releases_iff_waits : ∀ x ∈ calls.flatMap (LaneCall.rounds tiling), x.releases = true ↔
    ∃ y ∈ PackedGramMmadCubeStage.rounds tiling groupId,
      PackedGramMmadCubeStage.waitsFree y = true ∧ y.localRound = x.localRound + 2 ∧
        y.slotId = x.slotId
  releases_iff : ∀ x ∈ calls.flatMap (LaneCall.rounds tiling),
    x.releases = true ↔ x.localRound + 2 < tiling.taskCount groupId
  lane_reads : ∀ c ∈ calls.flatMap (LaneCall.reads tiling),
    0 ≤ c ∧ c ≤ tiling.totalTaskCount.tdiv tiling.hg
  aic_reads : ∀ x ∈ PackedGramMmadCubeStage.rounds tiling groupId,
    ∀ c ∈ PackedGramMmadCubeStage.reads x, 0 ≤ c ∧ c ≤ tiling.totalTaskCount.tdiv tiling.hg

/-- **The lanes consume what the AIC produces**, and each lane's loop terminates. -/
theorem lane_walk_agrees (L : Launch) (offsets : ChunkOffsets)
    (hb : 2 * L.tiling.blockDim < 2147483648) {g lane : ℕ} (hg : (g : ℤ) < L.tiling.blockDim)
    (hlane : lane < 2) (hn : L.tiling.taskCount g < 2147483648) :
    ∃ calls : List LaneCall,
      (∀ fuel : ℕ, L.tiling.taskCount g < fuel →
        process L.tiling offsets (2 * g + lane : ℕ) fuel = some calls) ∧
      WalkAgrees L.tiling g calls := by
  rw [L.blockDim_eq] at hb hg
  rw [L.taskCount_eq] at hn ⊢
  have hg : g < L.groups := by exact_mod_cast hg
  have hn : L.count g < 2147483648 := by exact_mod_cast hn
  obtain ⟨calls, hrun, hwalk⟩ := L.process_walk offsets hg hlane (by exact_mod_cast hb) hn
  refine ⟨calls, fun fuel hfuel => hrun fuel (by exact_mod_cast hfuel), ?_⟩
  have hrounds := hwalk.rounds_eq hg hlane hn
  rw [Nat.sub_zero, ← List.range_eq_range'] at hrounds
  have haic := Launch.aicRounds_eq (L := L) hg hn
  constructor
  · rw [hrounds, haic, List.map_map]
    rfl
  · intro x hx
    rw [haic]
    rw [hrounds] at hx
    obtain ⟨r, hr, rfl⟩ := List.mem_map.mp hx
    simp only [Launch.laneRound, decide_eq_true_eq]
    constructor
    · intro hlt
      refine ⟨L.round g (r + 2), List.mem_map.mpr ⟨r + 2, List.mem_range.mpr hlt, rfl⟩, ?_⟩
      refine ⟨decide_eq_true ?_, ?_, ?_⟩
      · simp only [Launch.round, SLOT_COUNT]
        omega
      · simp only [Launch.round]
        omega
      · simp only [Launch.round, slotIdOf, SLOT_COUNT]
        omega
    · rintro ⟨y, hy, -, hround, -⟩
      obtain ⟨r', hr', rfl⟩ := List.mem_map.mp hy
      have := List.mem_range.mp hr'
      simp only [Launch.round] at hround
      omega
  · intro x hx
    rw [hrounds] at hx
    obtain ⟨r, hr, rfl⟩ := List.mem_map.mp hx
    rw [L.taskCount_eq]
    simp only [Launch.laneRound, Launch.round, decide_eq_true_eq]
    omega
  · rw [L.numChunks_eq]
    exact hwalk.reads_le hg
  · intro x hx c hc
    rw [haic] at hx
    obtain ⟨r, hr, rfl⟩ := List.mem_map.mp hx
    have hlt := (L.place_lt hg (List.mem_range.mp hr)).1
    rw [L.numChunks_eq]
    simp only [PackedGramMmadCubeStage.reads, Launch.round, List.mem_cons, List.not_mem_nil,
      or_false] at hc
    omega

theorem lane_walk_agrees_sample : ∃ calls : List LaneCall,
    (∀ fuel : ℕ, sampleLaunch.tiling.taskCount 19 < fuel →
      process sampleLaunch.tiling ChunkOffsets.full (2 * 19 + 1 : ℕ) fuel = some calls) ∧
    WalkAgrees sampleLaunch.tiling (19 : ℕ) calls :=
  lane_walk_agrees sampleLaunch ChunkOffsets.full (by decide) (by decide) (by decide) (by decide)

end ChunkScaledDotKkt
