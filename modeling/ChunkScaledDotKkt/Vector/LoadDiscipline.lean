import ChunkScaledDotKkt.Vector.LoadState

/-!
# The loads of a lane's program

A round takes the state of the loads from free buffers to free buffers and does the
loads of `LoadRound.log`: the batches one ahead, the tile, its completion, the release of
the slot and the reads.

## Main results

* `PipelineTask.ops_run`, `ChunkPair.chunkOps_run` — the loads of each kind of round.
* `LoadRound.disciplined` — their order.
* `PipelineTask.prefetchesFrom_heads` — the batches cover the heads of the task.
* `load_discipline` — the same for any program of a lane, none of whose operations waits
  for the lane itself.
-/

namespace ChunkScaledDotKkt

namespace VectorStage

/-! ## The loads of a round -/

/-- What a round loads: the KKT tile and the batches of gate and beta, if it has work. -/
structure LoadRound where
  slotId : ℕ
  willReuseSlot : Bool
  /-- the tile, the first batch and the batches after it -/
  work : Option (KktCopy × Prefetch × List Prefetch)
  deriving Repr, DecidableEq

namespace LoadRound

def prefetchLog (batch : Prefetch) : List LoadEvent :=
  [.prefetch .gate batch, .prefetch .beta batch]

def deQueLog (batch : Prefetch) : List LoadEvent := [.deQue .gate batch, .deQue .beta batch]

def freeLog (slotId : ℕ) (willReuseSlot : Bool) : List LoadEvent :=
  if willReuseSlot then [.setFree slotId] else []

/-- The batches after the first: each is prefetched in the turn before its own. -/
def restLog (load : KktLoad) : List Prefetch → List LoadEvent
  | [] => []
  | batch :: rest => deQueLog batch ++ rest.head?.elim [] prefetchLog ++
      List.replicate batch.batchHeads (.readKkt load) ++ restLog load rest

/-- The loads of a round. -/
def log (round : LoadRound) : List LoadEvent :=
  match round.work with
  | some (copy, batch, rest) =>
      let load : KktLoad := ⟨round.slotId, copy⟩
      prefetchLog batch ++ [.beginLoad load] ++ deQueLog batch ++ [.completeLoad load] ++
      freeLog round.slotId round.willReuseSlot ++ rest.head?.elim [] prefetchLog ++
      List.replicate batch.batchHeads (.readKkt load) ++ restLog load rest
  | none => freeLog round.slotId round.willReuseSlot

end LoadRound

namespace LoadState

/-- A state in which both queues hold the same batches. -/
def both (queued : List Prefetch) (current : Option Prefetch) (kkt : KktTile)
    (log : List LoadEvent) : LoadState :=
  ⟨⟨none, queued, current⟩, ⟨none, queued, current⟩, kkt, log⟩

variable {queued : List Prefetch} {current : Option Prefetch} {kkt : KktTile}
  {log : List LoadEvent} {load : KktLoad} {batch : Prefetch}

theorem prefetch_run (firstHeadId start : ℤ) (chunkLen batchHeads : ℕ) :
    runLoads (prefetchGateAndBetaBatch firstHeadId start chunkLen batchHeads)
      (both [] current kkt log) =
    some (both [⟨firstHeadId, start, chunkLen, batchHeads⟩] current kkt
      (log ++ LoadRound.prefetchLog ⟨firstHeadId, start, chunkLen, batchHeads⟩)) := by
  cases current <;>
    simp [prefetchGateAndBetaBatch, LaneOp.load, queueOp, copyBatch, both, inQueue, setInQueue,
      TensorQueue.allocTensor, TensorQueue.fill, TensorQueue.enQue, TensorQueue.used, record,
      INPUT_BUFFER_NUM, INPUT_QUEUE_DEPTH, LoadRound.prefetchLog]

theorem deQue_run :
    runLoads [.queue .gate .deQue, .queue .beta .deQue] (both (batch :: queued) none kkt log) =
      some (both queued (some batch) kkt (log ++ LoadRound.deQueLog batch)) := by
  simp [LaneOp.load, queueOp, both, inQueue, setInQueue, TensorQueue.deQue, record,
    LoadRound.deQueLog]

theorem free_run :
    runLoads [.queue .gate .freeTensor, .queue .beta .freeTensor]
      (both queued (some batch) kkt log) = some (both queued none kkt log) := by
  simp [LaneOp.load, queueOp, both, inQueue, setInQueue, TensorQueue.freeTensor]

theorem beginLoad_run (hkkt : ∀ load, kkt ≠ .loading load)
    (groupId slotId chunkLen rowStart rowCount : ℕ) :
    runLoads (beginLoadKktSlot groupId slotId chunkLen rowStart rowCount)
      (both queued current kkt log) =
    some (both queued current (.loading ⟨slotId, chunkLen, rowStart, rowCount⟩)
      (log ++ [.beginLoad ⟨slotId, chunkLen, rowStart, rowCount⟩])) := by
  cases kkt with
  | loading load => exact absurd rfl (hkkt load)
  | _ =>
      by_cases hlen : chunkLen = 64 <;>
        simp [beginLoadKktSlot, hlen, LaneOp.load, both, beginLoad, writeKkt, record,
          VectorInstr.readsKkt, VectorInstr.writesKkt, VectorInstr.sources,
          VectorInstr.destinations]

theorem completeLoad_run (slotId : ℕ) (willReuseSlot : Bool) :
    runLoads (completeKktLoadAndReleaseSlot slotId willReuseSlot)
      (both queued current (.loading load) log) =
    some (both queued current (.loaded load)
      (log ++ .completeLoad load :: LoadRound.freeLog slotId willReuseSlot)) := by
  cases willReuseSlot <;>
    simp [completeKktLoadAndReleaseSlot, LaneOp.load, both, completeLoad, record,
      LoadRound.freeLog]

/-- A multiply by the tile. -/
theorem mulKkt_run (dst src : UbRef) (n : ℕ) :
    runLoads [.vector (.mul dst ⟨.kkt, 0⟩ src n)] (both queued current (.loaded load) log) =
      some (both queued current (.loaded load) (log ++ [.readKkt load])) := by
  simp [LaneOp.load, VectorInstr.readsKkt, VectorInstr.sources, readKkt, both, record]

/-- Commands outside the loads change nothing. -/
theorem run_of_filter {s : LoadState} {ops : List LaneOp} (h : ops.filter LaneOp.isLoad = []) :
    runLoads ops s = some s := by
  rw [← runLoads_filter, h, runLoads_nil]

/-- The output commands of a batch are outside the loads. -/
theorem outputs_run (s : LoadState) :
    runLoads [.acquireOutputSlot, .allocOutput] s = some s := rfl

end LoadState

theorem prepareHeadFactor_load (chunkLen rowStart rowCount out : ℕ) :
    (prepareHeadFactor chunkLen rowStart rowCount out).filter LaneOp.isLoad = [] := rfl

theorem prepareHeadPairFactor_load (chunkLen rowCount out0 out1 : ℕ) :
    (prepareHeadPairFactor chunkLen rowCount out0 out1).filter LaneOp.isLoad = [] := by
  by_cases hrows : rowCount = 64
  · rw [prepareHeadPairFactor, if_pos hrows]
    rfl
  · rw [prepareHeadPairFactor, if_neg hrows]
    rfl

namespace PipelineTask

open LoadState

variable (tiling : ChunkScaledDotKktTilingData) (groupId : ℕ) (task : PipelineTask)
  {kkt : KktTile} {log : List LoadEvent} {load : KktLoad}

/-- The operands of a batch's prefetch. -/
def prefetchOf (batchId : ℕ) : Prefetch :=
  ⟨task.firstHead tiling + task.batchRepeat batchId, task.start, task.chunkLen.toNat,
    task.batchHeads batchId⟩

/-- The operands from a batch on. -/
def prefetchesFrom (batchId : ℕ) : List Prefetch :=
  (List.range' batchId (task.batchCount - batchId)).map (task.prefetchOf tiling)

/-- The loads of a task. -/
def loadRound : LoadRound :=
  ⟨task.slotId, task.willReuseSlot,
    task.kktCopy.map fun copy => (copy, task.prefetchOf tiling 0, task.prefetchesFrom tiling 1)⟩

theorem prefetchesFrom_of_lt {batchId : ℕ} (h : batchId < task.batchCount) :
    task.prefetchesFrom tiling batchId =
      task.prefetchOf tiling batchId :: task.prefetchesFrom tiling (batchId + 1) := by
  have hsucc : task.batchCount - batchId = task.batchCount - (batchId + 1) + 1 := by omega
  rw [prefetchesFrom, prefetchesFrom, hsucc, List.range'_succ, List.map_cons]

theorem prefetchesFrom_of_le {batchId : ℕ} (h : task.batchCount ≤ batchId) :
    task.prefetchesFrom tiling batchId = [] := by
  rw [prefetchesFrom, Nat.sub_eq_zero_of_le h]
  rfl

/-- A batch of the task has one head or two. -/
theorem batchHeads_cases {batchId : ℕ} (h : batchId < task.batchCount) :
    task.batchHeads batchId = 1 ∨ task.batchHeads batchId = 2 := by
  rw [batchHeads, batchRepeat]
  simp only [batchCount, GATE_HEAD_BATCH, Int.tdiv_eq_ediv] at h ⊢
  split at h
  · omega
  · simp only [Int.sign] at h
    omega

theorem prepareBatch_load (batchId : ℕ) :
    (task.prepareBatch batchId).filter LaneOp.isLoad = [] := by
  by_cases hheads : (task.batchHeads batchId : ℤ) = GATE_HEAD_BATCH
  · rw [prepareBatch, if_pos hheads, prepareHeadPairFactor_load]
  · rw [prepareBatch, if_neg hheads, prepareHeadFactor_load]

theorem prefetchNext_run (batchId : ℕ) (current : Option Prefetch) :
    runLoads (task.prefetchNext tiling batchId) (both [] current kkt log) =
      some (both (task.prefetchesFrom tiling (batchId + 1)).head?.toList current kkt
        (log ++ (task.prefetchesFrom tiling (batchId + 1)).head?.elim []
          LoadRound.prefetchLog)) := by
  by_cases hnext : batchId + 1 < task.batchCount
  · rw [prefetchNext, if_pos hnext, prefetchBatch, prefetch_run,
      task.prefetchesFrom_of_lt tiling hnext]
    rfl
  · rw [prefetchNext, if_neg hnext, task.prefetchesFrom_of_le tiling (by omega)]
    simp

theorem finalizeBatch_run {batchId : ℕ} (h : batchId < task.batchCount)
    (queued : List Prefetch) (current : Option Prefetch) :
    runLoads (task.finalizeBatch tiling batchId) (both queued current (.loaded load) log) =
      some (both queued current (.loaded load)
        (log ++ List.replicate (task.batchHeads batchId) (.readKkt load))) := by
  cases task.batchHeads_cases h with
  | inl hone =>
      rw [finalizeBatch, hone, if_neg (by decide), finalizeHeadWithKkt, ← List.singleton_append,
        runLoads_append, mulKkt_run]
      rfl
  | inr htwo =>
      rw [finalizeBatch, htwo, if_pos (by decide), finalizeHeadPairWithKkt,
        ← List.singleton_append, runLoads_append, mulKkt_run, Option.bind_some,
        ← List.singleton_append, runLoads_append, mulKkt_run]
      simp [List.replicate, LaneOp.load]

theorem zeroTail_load (batchId : ℕ) :
    (if task.chunkLen ≠ ROW_ELEMS then zeroTailGateAndBetaBatchSuffix task.chunkLen.toNat
      (task.batchHeads batchId) else []).filter LaneOp.isLoad = [] := by
  by_cases hlen : task.chunkLen = ROW_ELEMS
  · simp [hlen]
  · simpa [hlen] using
      zeroTail_filter (p := LaneOp.isLoad) (fun _ _ => rfl) (fun _ _ => rfl) rfl _ _

/-- The first batch completes the load of the tile and releases its slot before the next
prefetch. -/
theorem firstBatch_run (h : 0 < task.batchCount) :
    runLoads (task.batchOps tiling 0) (both [task.prefetchOf tiling 0] none (.loading load) log) =
      some (both (task.prefetchesFrom tiling 1).head?.toList none (.loaded load)
        (log ++ LoadRound.deQueLog (task.prefetchOf tiling 0) ++
          .completeLoad load :: LoadRound.freeLog task.slotId task.willReuseSlot ++
          (task.prefetchesFrom tiling 1).head?.elim [] LoadRound.prefetchLog ++
          List.replicate (task.batchHeads 0) (.readKkt load))) := by
  simp only [batchOps, if_true, runLoads_append, deQue_run, Option.bind_some,
    run_of_filter (task.zeroTail_load 0), outputs_run, run_of_filter (task.prepareBatch_load 0),
    completeLoad_run, prefetchNext_run, task.finalizeBatch_run tiling h, free_run]

/-- A later batch reads the tile that the first one left. -/
theorem laterBatch_run {batchId : ℕ} (hpos : 0 < batchId) (h : batchId < task.batchCount) :
    runLoads (task.batchOps tiling batchId)
      (both [task.prefetchOf tiling batchId] none (.loaded load) log) =
      some (both (task.prefetchesFrom tiling (batchId + 1)).head?.toList none (.loaded load)
        (log ++ LoadRound.deQueLog (task.prefetchOf tiling batchId) ++
          (task.prefetchesFrom tiling (batchId + 1)).head?.elim [] LoadRound.prefetchLog ++
          List.replicate (task.batchHeads batchId) (.readKkt load))) := by
  simp only [batchOps, if_neg (Nat.ne_of_gt hpos), runLoads_append, deQue_run, Option.bind_some,
    run_of_filter (task.zeroTail_load batchId), outputs_run,
    run_of_filter (task.prepareBatch_load batchId), prefetchNext_run,
    task.finalizeBatch_run tiling h, free_run]

/-- The batches from a later one on; the induction is on how many are left. -/
theorem laterBatches_run {batchId left : ℕ} (hpos : 0 < batchId)
    (hleft : batchId + left = task.batchCount) :
    runLoads ((List.range' batchId left).flatMap (task.batchOps tiling))
      (both (task.prefetchesFrom tiling batchId).head?.toList none (.loaded load) log) =
      some (both [] none (.loaded load)
        (log ++ LoadRound.restLog load (task.prefetchesFrom tiling batchId))) := by
  induction left generalizing batchId log with
  | zero =>
      rw [task.prefetchesFrom_of_le tiling (by omega)]
      simp [LoadRound.restLog]
  | succ left ih =>
      rw [task.prefetchesFrom_of_lt tiling (by omega), List.range'_succ, List.flatMap_cons,
        runLoads_append, List.head?_cons, Option.toList_some,
        task.laterBatch_run tiling hpos (by omega), Option.bind_some, ih (by omega) (by omega)]
      simp [LoadRound.restLog, prefetchOf]

/-- **A single round** from free buffers to free buffers. -/
theorem ops_run (hwork : task.hasWork = true → task.firstRepeat < task.repeatEnd)
    (hkkt : ∀ load, kkt ≠ .loading load) :
    ∃ kkt', (∀ load, kkt' ≠ .loading load) ∧
      runLoads (task.ops tiling groupId) (both [] none kkt log) =
        some (both [] none kkt' (log ++ (task.loadRound tiling).log)) := by
  cases hhas : task.hasWork with
  | true =>
      have hcount : 0 < task.batchCount := by
        have hlt := hwork hhas
        rw [batchCount, Int.tdiv_eq_ediv_of_nonneg (by rw [GATE_HEAD_BATCH]; omega),
          GATE_HEAD_BATCH]
        omega
      let load : KktLoad := ⟨task.slotId, task.chunkLen.toNat, task.rowStart.toNat,
        task.rowCount.toNat⟩
      refine ⟨.loaded load, fun load' => KktTile.noConfusion, ?_⟩
      have hrange : List.range task.batchCount = 0 :: List.range' 1 (task.batchCount - 1) := by
        obtain ⟨left, hleft⟩ := Nat.exists_eq_add_one.mpr hcount
        rw [hleft, List.range_eq_range', List.range'_succ]
        rfl
      have hwait : ∀ s, runLoads [.waitReady task.slotId] s = some s := fun _ => rfl
      simp only [ops, hhas, if_true, prefetchBatch, runLoads_append, prefetch_run, hwait,
        Option.bind_some, beginLoad_run hkkt, processHeadRange, hrange, List.flatMap_cons]
      rw [show (⟨task.firstHead tiling + task.batchRepeat 0, task.start, task.chunkLen.toNat,
          task.batchHeads 0⟩ : Prefetch) = task.prefetchOf tiling 0 from rfl,
        task.firstBatch_run tiling hcount, Option.bind_some,
        task.laterBatches_run tiling (Nat.zero_lt_one) (by omega)]
      have hround : (task.loadRound tiling).work =
          some (load.copy, task.prefetchOf tiling 0, task.prefetchesFrom tiling 1) := by
        simp [loadRound, kktCopy, hhas, load]
      simp only [LoadRound.log, hround]
      simp [loadRound, load, prefetchOf]
  | false =>
      refine ⟨kkt, hkkt, ?_⟩
      have hround : (task.loadRound tiling).work = none := by simp [loadRound, kktCopy, hhas]
      simp only [LoadRound.log, hround, ops, hhas]
      cases hreuse : task.willReuseSlot <;>
        simp [LaneOp.load, both, record, loadRound, hreuse, LoadRound.freeLog]

end PipelineTask

namespace ChunkPair

open LoadState

variable (t : ℤ) (groupId : ℕ) (pair : ChunkPair) {kkt : KktTile} {log : List LoadEvent}

/-- The loads of one of the two chunks. -/
def loadRound (start : ℤ) (slotId : ℕ) (reuse : Bool) : LoadRound :=
  ⟨slotId, reuse, some (⟨64, 0, 64⟩, ⟨pair.firstHeadId, start, 64, pair.kHeadCount⟩, [])⟩

theorem chunkOps_run (hkkt : ∀ load, kkt ≠ .loading load) (start : ℤ) (slotId : ℕ)
    (reuse : Bool) (out0 out1 : ℕ) :
    runLoads (pair.chunkOps groupId start slotId reuse out0 out1) (both [] none kkt log) =
      some (both [] none (.loaded ⟨slotId, 64, 0, 64⟩)
        (log ++ (pair.loadRound start slotId reuse).log)) := by
  have hwait : ∀ s, runLoads [.waitReady slotId] s = some s := fun _ => rfl
  cases hpair : pair.kPair <;>
    simp only [chunkOps, hpair, if_true, Bool.false_eq_true, if_false, runLoads_append,
      prefetch_run, hwait, Option.bind_some, beginLoad_run hkkt, deQue_run,
      run_of_filter (prepareHeadFactor_load _ _ _ _),
      run_of_filter (prepareHeadPairFactor_load _ _ _ _), completeLoad_run, mulKkt_run,
      runLoads_nil, free_run]
  all_goals simp [LoadRound.log, loadRound, kHeadCount, hpair, LoadRound.restLog]

end ChunkPair

/-! ## A lane's program -/

/-- No buffer is allocated and no tile is in flight. -/
structure LoadState.Idle (s : LoadState) : Prop where
  gate : s.gate = .empty
  beta : s.beta = .empty
  kkt : ∀ load, s.kkt ≠ .loading load

/-- Commands that do the loads of a round, from free buffers to free buffers. -/
def RunsRound (ops : List LaneOp) (round : LoadRound) : Prop :=
  ∀ s : LoadState, s.Idle →
    ∃ s' : LoadState, runLoads ops s = some s' ∧ s'.Idle ∧ s'.log = s.log ++ round.log

theorem RunsRound.of_both {ops : List LaneOp} {round : LoadRound}
    (h : ∀ kkt log, (∀ load, kkt ≠ .loading load) →
      ∃ kkt', (∀ load, kkt' ≠ .loading load) ∧ runLoads ops (LoadState.both [] none kkt log) =
        some (LoadState.both [] none kkt' (log ++ round.log))) : RunsRound ops round := by
  intro s hs
  have hboth : s = LoadState.both [] none s.kkt s.log := by
    obtain ⟨gate, beta, kkt, log⟩ := s
    obtain ⟨hgate, hbeta, -⟩ := hs
    simp only at hgate hbeta
    rw [hgate, hbeta]
    rfl
  obtain ⟨kkt', hkkt', hrun⟩ := h s.kkt s.log hs.kkt
  rw [← hboth] at hrun
  exact ⟨_, hrun, ⟨rfl, rfl, hkkt'⟩, rfl⟩

/-- The loads of an item, round by round. -/
def LaneItem.loadRounds (tiling : ChunkScaledDotKktTilingData) : LaneItem → List LoadRound
  | .single task => [task.loadRound tiling]
  | .pair chunks =>
      [chunks.loadRound chunks.firstStart chunks.firstSlotId chunks.reuseFirstSlot,
       chunks.loadRound chunks.secondStart chunks.secondSlotId chunks.reuseSecondSlot]

/-- A task with work has repeats to work on. -/
def LaneItem.HasRepeats : LaneItem → Prop
  | .single task => task.hasWork = true → task.firstRepeat < task.repeatEnd
  | .pair _ => True

/-- **The rounds of an item.** -/
theorem LaneItem.runs_rounds (tiling : ChunkScaledDotKktTilingData) (groupId : ℕ)
    {item : LaneItem} (h : item.HasRepeats) :
    List.Forall₂ RunsRound (item.parts tiling groupId) (item.loadRounds tiling) := by
  cases item with
  | single task =>
      refine .cons (.of_both fun kkt log hkkt => ?_) .nil
      exact task.ops_run tiling groupId h hkkt
  | pair chunks =>
      refine .cons (.of_both fun kkt log hkkt => ?_)
        (.cons (.of_both fun kkt log hkkt => ?_) .nil)
      · refine ⟨.loaded ⟨chunks.firstSlotId, 64, 0, 64⟩, fun load => KktTile.noConfusion, ?_⟩
        rw [ChunkPair.firstOps, runLoads_append, LoadState.outputs_run, Option.bind_some,
          chunks.chunkOps_run groupId hkkt]
      · refine ⟨.loaded ⟨chunks.secondSlotId, 64, 0, 64⟩, fun load => KktTile.noConfusion, ?_⟩
        rw [ChunkPair.secondOps, runLoads_append, chunks.chunkOps_run groupId hkkt,
          Option.bind_some]
        rfl

theorem runs_rounds (tiling : ChunkScaledDotKktTilingData) (groupId : ℕ) {items : List LaneItem}
    (h : ∀ item ∈ items, item.HasRepeats) :
    List.Forall₂ RunsRound (laneParts tiling groupId items)
      (items.flatMap (LaneItem.loadRounds tiling)) := by
  induction items with
  | nil => exact .nil
  | cons item items ih =>
      rw [laneParts, List.flatMap_cons, List.flatMap_cons]
      exact List.rel_append (LaneItem.runs_rounds tiling groupId (h item (by simp)))
        (ih fun item hitem => h item (by simp [hitem]))

/-- Any number of rounds, one after the other. -/
theorem RunsRound.run {parts : List (List LaneOp)} {rounds : List LoadRound}
    (h : List.Forall₂ RunsRound parts rounds) {s : LoadState} (hs : s.Idle) :
    ∃ s' : LoadState, runLoads parts.flatten s = some s' ∧ s'.Idle ∧
      s'.log = s.log ++ rounds.flatMap LoadRound.log := by
  induction h generalizing s with
  | nil => exact ⟨s, rfl, hs, by simp⟩
  | @cons part round parts rounds hpart hrest ih =>
      obtain ⟨s1, hrun, h1, hlog⟩ := hpart s hs
      obtain ⟨s2, hruns, h2, hlogs⟩ := ih h1
      refine ⟨s2, ?_, h2, ?_⟩
      · rw [List.flatten_cons, runLoads_append, hrun]
        exact hruns
      · rw [hlogs, hlog, List.flatMap_cons, List.append_assoc]

/-! ## The order of a round's loads -/

def LoadEvent.prefetched? (id : QueueId) : LoadEvent → Option Prefetch
  | .prefetch id' batch => if id' = id then some batch else none
  | _ => none

def LoadEvent.deQueued? (id : QueueId) : LoadEvent → Option Prefetch
  | .deQue id' batch => if id' = id then some batch else none
  | _ => none

def LoadEvent.isKkt : LoadEvent → Bool
  | .beginLoad _ => true
  | .completeLoad _ => true
  | .readKkt _ => true
  | _ => false

def LoadEvent.isFree : LoadEvent → Bool
  | .setFree _ => true
  | _ => false

namespace LoadRound

variable (round : LoadRound)

/-- The batches of a round, in order. -/
def batches : List Prefetch := round.work.elim [] fun (_, first, rest) => first :: rest

/-- The events of a round's tile: one load, its completion, then the reads. -/
def kktEvents : List LoadEvent :=
  round.work.elim [] fun (copy, first, rest) =>
    let load : KktLoad := ⟨round.slotId, copy⟩
    [.beginLoad load, .completeLoad load] ++
      (first :: rest).flatMap fun batch => List.replicate batch.batchHeads (.readKkt load)

/-- Batches are dequeued as they were prefetched; the tile is completed once, between its
load and its reads; the slot is released once if at all, when the tile is there and only the
first batch has been prefetched. -/
structure Disciplined : Prop where
  prefetched : ∀ id, round.log.filterMap (LoadEvent.prefetched? id) = round.batches
  deQueued : ∀ id, round.log.filterMap (LoadEvent.deQueued? id) = round.batches
  kkt : round.log.filter LoadEvent.isKkt = round.kktEvents
  free : ∃ before after, round.log = before ++ freeLog round.slotId round.willReuseSlot ++ after ∧
    (before ++ after).filter LoadEvent.isFree = [] ∧
    before.filter LoadEvent.isKkt = round.kktEvents.take 2 ∧
    ∀ id, before.filterMap (LoadEvent.prefetched? id) = round.batches.take 1

variable {round}

section

variable (load : KktLoad) (rest : List Prefetch)

/-- The prefetch that stands before the next batch, if there is one. -/
theorem head_prefetched (id : QueueId) :
    (rest.head?.elim [] prefetchLog).filterMap (LoadEvent.prefetched? id) = rest.take 1 := by
  cases rest with
  | nil => rfl
  | cons batch rest => cases id <;> rfl

theorem restLog_prefetched (id : QueueId) :
    (restLog load rest).filterMap (LoadEvent.prefetched? id) = rest.tail := by
  induction rest with
  | nil => rfl
  | cons batch rest ih =>
      rw [restLog, List.filterMap_append, List.filterMap_append, List.filterMap_append, ih,
        head_prefetched]
      cases rest <;> cases id <;>
        simp [deQueLog, LoadEvent.prefetched?, List.filterMap_cons, List.filterMap_replicate]

theorem head_deQueued (id : QueueId) :
    (rest.head?.elim [] prefetchLog).filterMap (LoadEvent.deQueued? id) = [] := by
  cases rest with
  | nil => rfl
  | cons batch rest => rfl

theorem restLog_deQueued (id : QueueId) :
    (restLog load rest).filterMap (LoadEvent.deQueued? id) = rest := by
  induction rest with
  | nil => rfl
  | cons batch rest ih =>
      rw [restLog, List.filterMap_append, List.filterMap_append, List.filterMap_append, ih,
        head_deQueued]
      cases id <;> simp [deQueLog, LoadEvent.deQueued?, List.filterMap_replicate]

theorem head_filter {p : LoadEvent → Bool} (hp : ∀ id batch, p (.prefetch id batch) = false) :
    (rest.head?.elim [] prefetchLog).filter p = [] := by
  cases rest with
  | nil => rfl
  | cons batch rest => simp [prefetchLog, hp]

theorem restLog_isKkt : (restLog load rest).filter LoadEvent.isKkt =
    rest.flatMap fun batch => List.replicate batch.batchHeads (.readKkt load) := by
  induction rest with
  | nil => rfl
  | cons batch rest ih =>
      rw [restLog, List.filter_append, List.filter_append, List.filter_append, ih,
        head_filter rest fun _ _ => rfl, List.filter_replicate]
      rfl

theorem restLog_isFree : (restLog load rest).filter LoadEvent.isFree = [] := by
  induction rest with
  | nil => rfl
  | cons batch rest ih =>
      rw [restLog, List.filter_append, List.filter_append, List.filter_append, ih,
        head_filter rest fun _ _ => rfl, List.filter_replicate]
      rfl

end

/-- **Every round is disciplined.** -/
theorem disciplined (round : LoadRound) : round.Disciplined := by
  obtain ⟨slotId, reuse, work⟩ := round
  cases work with
  | none =>
      refine ⟨fun id => ?_, fun id => ?_, ?_, ⟨[], [], ?_, rfl, rfl, fun id => rfl⟩⟩
      all_goals cases reuse <;> rfl
  | some work =>
      obtain ⟨copy, first, rest⟩ := work
      have hkkt := head_filter rest (p := LoadEvent.isKkt) fun _ _ => rfl
      have hfree := head_filter rest (p := LoadEvent.isFree) fun _ _ => rfl
      refine ⟨fun id => ?_, fun id => ?_, ?_, ?_⟩
      · cases reuse <;> cases id <;> cases rest <;>
          simp [log, batches, prefetchLog, deQueLog, freeLog, LoadEvent.prefetched?,
            List.filterMap_cons, List.filterMap_replicate, restLog_prefetched]
      · cases reuse <;> cases id <;>
          simp [log, batches, prefetchLog, deQueLog, freeLog, LoadEvent.deQueued?,
            List.filterMap_cons, List.filterMap_replicate, restLog_deQueued, head_deQueued]
      · cases reuse <;>
          simp [log, kktEvents, prefetchLog, deQueLog, freeLog, LoadEvent.isKkt, List.filter_cons,
            List.filter_replicate, restLog_isKkt, hkkt]
      · refine ⟨prefetchLog first ++ [.beginLoad ⟨slotId, copy⟩] ++ deQueLog first ++
            [.completeLoad ⟨slotId, copy⟩], rest.head?.elim [] prefetchLog ++
            List.replicate first.batchHeads (.readKkt ⟨slotId, copy⟩) ++
            restLog ⟨slotId, copy⟩ rest, by simp [log], ?_, rfl, fun id => ?_⟩
        · simp [prefetchLog, deQueLog, LoadEvent.isFree, restLog_isFree, hfree]
        · cases id <;> rfl

end LoadRound

/-! ## The heads of a task -/

/-- The heads of a batch. -/
def Prefetch.heads (batch : Prefetch) : List ℤ :=
  (List.range batch.batchHeads).map fun i : ℕ => batch.firstHeadId + i

namespace PipelineTask

variable (tiling : ChunkScaledDotKktTilingData) (task : PipelineTask)

/-- The batches of a task with repeats reach the last of them. -/
theorem repeatEnd_le (h : task.firstRepeat < task.repeatEnd) :
    task.repeatEnd ≤ task.batchRepeat task.batchCount := by
  rw [batchRepeat, batchCount, Int.tdiv_eq_ediv_of_nonneg (by rw [GATE_HEAD_BATCH]; omega),
    GATE_HEAD_BATCH]
  omega

/-- The heads of the batches from one on, once each and in order; the induction is on how
many batches are left. -/
theorem prefetchesFrom_heads (h : task.firstRepeat < task.repeatEnd) {batchId left : ℕ}
    (hleft : batchId + left = task.batchCount) :
    (task.prefetchesFrom tiling batchId).flatMap Prefetch.heads =
      (List.range (task.repeatEnd - task.batchRepeat batchId).toNat).map fun i : ℕ =>
        task.firstHead tiling + task.batchRepeat batchId + i := by
  induction left generalizing batchId with
  | zero =>
      have hend := task.repeatEnd_le h
      have hcount : batchId = task.batchCount := by omega
      rw [task.prefetchesFrom_of_le tiling (by omega), hcount, Int.toNat_eq_zero.mpr (by omega)]
      rfl
  | succ left ih =>
      rw [task.prefetchesFrom_of_lt tiling (by omega), List.flatMap_cons, ih (by omega)]
      have hcases : task.batchHeads batchId = 1 ∨ task.batchHeads batchId = 2 :=
        task.batchHeads_cases (by omega)
      have hheads : task.batchHeads batchId =
          (min GATE_HEAD_BATCH (task.repeatEnd - task.batchRepeat batchId)).toNat := rfl
      have hnext : task.batchRepeat (batchId + 1) = task.batchRepeat batchId + 2 := by
        simp only [batchRepeat, GATE_HEAD_BATCH]
        omega
      simp only [GATE_HEAD_BATCH] at hheads
      have hsplit : (task.repeatEnd - task.batchRepeat batchId).toNat =
          task.batchHeads batchId + (task.repeatEnd - task.batchRepeat (batchId + 1)).toNat := by
        omega
      rw [hsplit, List.range_add, List.map_append, List.map_map, Prefetch.heads, prefetchOf]
      congr 1
      -- an odd last batch has nothing after it
      cases hcases with
      | inl hone =>
          have hzero : (task.repeatEnd - task.batchRepeat (batchId + 1)).toNat = 0 := by omega
          rw [hzero]
          rfl
      | inr htwo =>
          apply List.map_congr_left
          intro i _
          simp only [Function.comp_apply, htwo, hnext]
          omega

end PipelineTask

/-- The rounds of an item cover its heads. -/
def LaneItem.Covers (tiling : ChunkScaledDotKktTilingData) : LaneItem → Prop
  | .single task =>
      (task.loadRound tiling).batches = (if task.hasWork then
        (List.range task.batchCount).map (task.prefetchOf tiling) else []) ∧
      (task.loadRound tiling).batches.flatMap Prefetch.heads = (if task.hasWork then
        (List.range (task.repeatEnd - task.firstRepeat).toNat).map fun i : ℕ =>
          task.kvHeadId * tiling.numRepeat + task.firstRepeat + i else [])
  | .pair chunks =>
      ∀ round ∈ (LaneItem.pair chunks).loadRounds tiling,
        round.batches.flatMap Prefetch.heads =
          (List.range chunks.kHeadCount).map fun i : ℕ => chunks.firstHeadId + i

theorem LaneItem.covers (tiling : ChunkScaledDotKktTilingData) {item : LaneItem}
    (h : item.HasRepeats) : item.Covers tiling := by
  cases item with
  | single task =>
      cases hwork : task.hasWork with
      | true =>
          have hlt := h hwork
          have hcount : 0 < task.batchCount := by
            by_contra hzero
            have hend := task.repeatEnd_le hlt
            have hnone : task.batchCount = 0 := by omega
            simp only [hnone, PipelineTask.batchRepeat] at hend
            omega
          have hbatches : (task.loadRound tiling).batches = task.prefetchesFrom tiling 0 := by
            simp [PipelineTask.loadRound, PipelineTask.kktCopy, hwork, LoadRound.batches,
              task.prefetchesFrom_of_lt tiling hcount]
          simp only [Covers, hwork, if_true, hbatches]
          refine ⟨?_, ?_⟩
          · rw [PipelineTask.prefetchesFrom, List.range_eq_range', Nat.sub_zero]
          · rw [task.prefetchesFrom_heads tiling hlt (Nat.zero_add _)]
            simp [PipelineTask.batchRepeat, PipelineTask.firstHead]
      | false =>
          simp [Covers, hwork, PipelineTask.loadRound, PipelineTask.kktCopy, LoadRound.batches]
  | pair chunks =>
      intro round hround
      simp only [loadRounds, List.mem_cons, List.not_mem_nil, or_false] at hround
      cases hround with
      | inl hfirst => rw [hfirst]; simp [ChunkPair.loadRound, LoadRound.batches, Prefetch.heads]
      | inr hsecond => rw [hsecond]; simp [ChunkPair.loadRound, LoadRound.batches, Prefetch.heads]

/-- A task has work only on repeats of its own. -/
theorem hasRepeats_of_call {tiling : ChunkScaledDotKktTilingData} {offsets : ChunkOffsets}
    {call : LaneCall} {item : LaneItem} (h : item ∈ call.items tiling offsets) :
    item.HasRepeats := by
  cases call with
  | canFuse _ => simp [LaneCall.items] at h
  | pipelineTask taskId groupId aivLane localRound willReuseSlot =>
      simp only [LaneCall.items, List.mem_singleton] at h
      subst h
      intro hwork
      simp only [pipelineTask, Bool.and_eq_true, decide_eq_true_eq] at hwork
      exact hwork.2
  | adjacentFullChunk kPair firstChunkId firstHeadId groupId localRound localTaskCount =>
      simp only [LaneCall.items, List.mem_singleton] at h
      subst h
      trivial

theorem bounded_init : LoadState.init.Bounded :=
  ⟨TensorQueue.bounded_empty, TensorQueue.bounded_empty⟩

/-- **The loads of any lane program.**  At every point the queues are within their depth and
their buffers and no operation waits for the lane itself; before and after each round all
buffers are free; the loads of every round are disciplined and its batches cover its
heads. -/
theorem load_discipline (tiling : ChunkScaledDotKktTilingData) (offsets : ChunkOffsets)
    (groupId : ℕ) (calls : List LaneCall) :
    let items := calls.flatMap (LaneCall.items tiling offsets)
    let rounds := items.flatMap (LaneItem.loadRounds tiling)
    (∀ ops, ops <+: laneOps tiling groupId items →
      ∃ s, runLoads ops .init = some s ∧ s.Bounded) ∧
    (laneParts tiling groupId items).length = rounds.length ∧
    (∀ k, ∃ s : LoadState, runLoads ((laneParts tiling groupId items).take k).flatten .init =
      some s ∧ s.Idle ∧ s.log = (rounds.take k).flatMap LoadRound.log) ∧
    (∀ round ∈ rounds, round.Disciplined) ∧ ∀ item ∈ items, item.Covers tiling := by
  intro items rounds
  have hrepeats : ∀ item ∈ items, item.HasRepeats := by
    intro item hitem
    obtain ⟨call, -, hcall⟩ := List.mem_flatMap.mp hitem
    exact hasRepeats_of_call hcall
  have hall := runs_rounds tiling groupId hrepeats
  have hinit : LoadState.init.Idle := ⟨rfl, rfl, fun load => KktTile.noConfusion⟩
  refine ⟨?_, hall.length_eq, ?_, fun round _ => round.disciplined,
    fun item hitem => LaneItem.covers tiling (hrepeats item hitem)⟩
  · -- a prefix of a program that runs to its end runs
    intro ops hprefix
    obtain ⟨rest, hrest⟩ := hprefix
    obtain ⟨s', hrun, -, -⟩ := RunsRound.run hall hinit
    have hfull : runLoads (laneOps tiling groupId items) .init = some s' := by
      rw [laneOps, runLoads_append]
      change (runLoads (laneParts tiling groupId items).flatten .init).bind _ = _
      rw [hrun]
      rfl
    rw [← hrest, runLoads_append] at hfull
    obtain ⟨s, hs, -⟩ := Option.bind_eq_some_iff.mp hfull
    exact ⟨s, hs, bounded_init.run hs⟩
  · intro k
    obtain ⟨s, hrun, hidle, hlog⟩ := RunsRound.run (List.forall₂_take k hall) hinit
    exact ⟨s, hrun, hidle, by simpa [LoadState.init] using hlog⟩

end VectorStage

end ChunkScaledDotKkt
