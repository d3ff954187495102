import ChunkScaledDotKkt.Vector.Stage

/-!
# The slot protocol of a lane

The commands of a lane that synchronize: the READY wait, the events around the KKT
copy, the copy and the FREE message.  Every path through a round has the same ones, in
the same order, whatever batches of heads it works on.

## Main results

* `ops_protocol`, `firstOps_protocol`, `secondOps_protocol` — the protocol of each path.
* `LaneRounds.parts_length`, `LaneRounds.parts_protocol` — and of a lane's program.
-/

namespace ChunkScaledDotKkt

/-- The commands that take part in the exchange of slots. -/
def LaneOp.isProtocol : LaneOp → Bool
  | .waitReady _ => true
  | .setFree _ => true
  | .setFlag _ => true
  | .waitFlag _ => true
  | .copyKkt _ _ _ _ _ => true
  | _ => false

namespace VectorStage

/-- The operands of a KKT copy. -/
structure KktCopy where
  chunkLen : ℕ
  rowStart : ℕ
  rowCount : ℕ
  deriving Repr, DecidableEq

/-- The protocol of a round, with or without work. -/
def protocolOps (groupId slotId : ℕ) (work : Option KktCopy) (reuse : Bool) : List LaneOp :=
  [.waitReady slotId] ++
  (match work with
    | none => []
    | some copy =>
        [.setFlag .v_mte2, .waitFlag .v_mte2,
         .copyKkt groupId slotId copy.chunkLen copy.rowStart copy.rowCount,
         .setFlag .mte2_v, .waitFlag .mte2_v]) ++
  (if reuse then [.setFree slotId] else [])

/-! ## The parts of a task -/

theorem prefetch_protocol (firstHeadId start : ℤ) (chunkLen batchHeads : ℕ) :
    (prefetchGateAndBetaBatch firstHeadId start chunkLen batchHeads).filter LaneOp.isProtocol =
      [] := rfl

/-- The zeroed tails are writes to the tensors in use and a barrier. -/
theorem zeroTail_filter {p : LaneOp → Bool}
    (hgate : ∀ off n, p (.vector (.duplicateZero ⟨.gate .current, off⟩ n)) = false)
    (hbeta : ∀ off n, p (.vector (.duplicateZero ⟨.beta .current, off⟩ n)) = false)
    (hbarrier : p .pipeBarrierV = false) (chunkLen batchHeads : ℕ) :
    (zeroTailGateAndBetaBatchSuffix chunkLen batchHeads).filter p = [] := by
  rw [List.filter_eq_nil_iff]
  intro op hop
  simp only [zeroTailGateAndBetaBatchSuffix, List.mem_append, List.mem_flatMap,
    List.mem_range] at hop
  rcases hop with ⟨head, -, hop | hop⟩ | hop
  all_goals
    split at hop
    · rw [List.mem_singleton.mp hop]
      simp [hgate, hbeta, hbarrier]
    · cases hop

theorem zeroTail_protocol (chunkLen batchHeads : ℕ) :
    (zeroTailGateAndBetaBatchSuffix chunkLen batchHeads).filter LaneOp.isProtocol = [] :=
  zeroTail_filter (fun _ _ => rfl) (fun _ _ => rfl) rfl chunkLen batchHeads

theorem beginLoad_protocol (groupId slotId chunkLen rowStart rowCount : ℕ) :
    (beginLoadKktSlot groupId slotId chunkLen rowStart rowCount).filter LaneOp.isProtocol =
      [.setFlag .v_mte2, .waitFlag .v_mte2, .copyKkt groupId slotId chunkLen rowStart rowCount,
       .setFlag .mte2_v] := by
  by_cases hlen : chunkLen = 64 <;> simp [beginLoadKktSlot, hlen, LaneOp.isProtocol]

theorem complete_protocol (slotId : ℕ) (reuse : Bool) :
    (completeKktLoadAndReleaseSlot slotId reuse).filter LaneOp.isProtocol =
      completeKktLoadAndReleaseSlot slotId reuse := by
  cases reuse <;> rfl

theorem prepareHeadFactor_protocol (chunkLen rowStart rowCount out : ℕ) :
    (prepareHeadFactor chunkLen rowStart rowCount out).filter LaneOp.isProtocol = [] := rfl

theorem prepareHeadPairFactor_protocol (chunkLen rowCount out0 out1 : ℕ) :
    (prepareHeadPairFactor chunkLen rowCount out0 out1).filter LaneOp.isProtocol = [] := by
  by_cases hrows : rowCount = 64 <;> simp [prepareHeadPairFactor, hrows, LaneOp.isProtocol]

namespace PipelineTask

variable (tiling : ChunkScaledDotKktTilingData) (groupId : ℕ) (task : PipelineTask)

theorem prepareBatch_protocol (batchId : ℕ) :
    (task.prepareBatch batchId).filter LaneOp.isProtocol = [] := by
  by_cases hheads : (task.batchHeads batchId : ℤ) = GATE_HEAD_BATCH
  · rw [prepareBatch, if_pos hheads, prepareHeadPairFactor_protocol]
  · rw [prepareBatch, if_neg hheads, prepareHeadFactor_protocol]

theorem prefetchNext_protocol (batchId : ℕ) :
    (task.prefetchNext tiling batchId).filter LaneOp.isProtocol = [] := by
  by_cases hnext : batchId + 1 < task.batchCount
  · rw [prefetchNext, if_pos hnext, prefetchBatch, prefetch_protocol]
  · rw [prefetchNext, if_neg hnext, List.filter_nil]

theorem finalizeBatch_protocol (batchId : ℕ) :
    (task.finalizeBatch tiling batchId).filter LaneOp.isProtocol = [] := by
  by_cases hheads : (task.batchHeads batchId : ℤ) = GATE_HEAD_BATCH
  · rw [finalizeBatch, if_pos hheads]
    rfl
  · rw [finalizeBatch, if_neg hheads]
    rfl

/-- Only the first batch completes the KKT load and releases the slot. -/
theorem batchOps_protocol (batchId : ℕ) :
    (task.batchOps tiling batchId).filter LaneOp.isProtocol =
      if batchId = 0 then completeKktLoadAndReleaseSlot task.slotId task.willReuseSlot else [] := by
  have htail : (if task.chunkLen ≠ ROW_ELEMS then zeroTailGateAndBetaBatchSuffix
      task.chunkLen.toNat (task.batchHeads batchId) else []).filter LaneOp.isProtocol = [] := by
    by_cases hlen : task.chunkLen = ROW_ELEMS <;> simp [hlen, zeroTail_protocol]
  by_cases h0 : batchId = 0
  · simp only [batchOps, if_pos h0, List.filter_append, htail, prepareBatch_protocol,
      prefetchNext_protocol, finalizeBatch_protocol, complete_protocol]
    simp [LaneOp.isProtocol]
  · simp only [batchOps, if_neg h0, List.filter_append, htail, prepareBatch_protocol,
      prefetchNext_protocol, finalizeBatch_protocol]
    rfl

theorem processHeadRange_protocol (h : task.firstRepeat < task.repeatEnd) :
    (task.processHeadRange tiling).filter LaneOp.isProtocol =
      completeKktLoadAndReleaseSlot task.slotId task.willReuseSlot := by
  obtain ⟨n, hn⟩ : ∃ n, task.batchCount = n + 1 := by
    refine Nat.exists_eq_succ_of_ne_zero ?_
    rw [batchCount, Int.tdiv_eq_ediv_of_nonneg (by rw [GATE_HEAD_BATCH]; omega)]
    rw [GATE_HEAD_BATCH]
    omega
  have hrest : ((List.range n).map Nat.succ).flatMap
      (fun b => (task.batchOps tiling b).filter LaneOp.isProtocol) = [] := by
    rw [List.flatMap_eq_nil_iff]
    intro b hb
    obtain ⟨b', -, rfl⟩ := List.mem_map.mp hb
    rw [batchOps_protocol, if_neg (Nat.succ_ne_zero b')]
  rw [processHeadRange, hn, List.range_succ_eq_map, List.filter_flatMap, List.flatMap_cons, hrest,
    batchOps_protocol, if_pos rfl, List.append_nil]

/-- The KKT copy of a task that has work. -/
def kktCopy : Option KktCopy :=
  if task.hasWork then
    some ⟨task.chunkLen.toNat, task.rowStart.toNat, task.rowCount.toNat⟩
  else none

/-- **The protocol of a single round.** -/
theorem ops_protocol (h : task.hasWork = true → task.firstRepeat < task.repeatEnd) :
    (task.ops tiling groupId).filter LaneOp.isProtocol =
      protocolOps groupId task.slotId task.kktCopy task.willReuseSlot := by
  cases hwork : task.hasWork with
  | true =>
      simp only [ops, hwork, kktCopy, if_true, List.filter_append, prefetchBatch,
        prefetch_protocol, beginLoad_protocol, task.processHeadRange_protocol tiling (h hwork)]
      cases task.willReuseSlot <;> rfl
  | false =>
      cases hreuse : task.willReuseSlot <;>
        simp [ops, hwork, kktCopy, hreuse, protocolOps, LaneOp.isProtocol]

end PipelineTask

namespace ChunkPair

variable (t : ℤ) (groupId : ℕ) (pair : ChunkPair)

theorem chunkOps_protocol (start : ℤ) (slotId : ℕ) (reuse : Bool) (out0 out1 : ℕ) :
    (pair.chunkOps groupId start slotId reuse out0 out1).filter LaneOp.isProtocol =
      protocolOps groupId slotId (some ⟨64, 0, 64⟩) reuse := by
  cases hpair : pair.kPair <;>
    simp only [chunkOps, hpair, List.filter_append, prefetch_protocol, beginLoad_protocol,
      complete_protocol, if_true, Bool.false_eq_true, if_false, prepareHeadFactor_protocol,
      prepareHeadPairFactor_protocol]
  all_goals cases reuse <;> rfl

/-- **The protocol of a fused pair**, chunk by chunk. -/
theorem firstOps_protocol : (pair.firstOps groupId).filter LaneOp.isProtocol =
    protocolOps groupId pair.firstSlotId (some ⟨64, 0, 64⟩) pair.reuseFirstSlot := by
  rw [firstOps, List.filter_append, chunkOps_protocol]
  rfl

theorem secondOps_protocol : (pair.secondOps t groupId).filter LaneOp.isProtocol =
    protocolOps groupId pair.secondSlotId (some ⟨64, 0, 64⟩) pair.reuseSecondSlot := by
  rw [secondOps, List.filter_append, chunkOps_protocol]
  exact List.append_nil _

end ChunkPair

/-! ## The rounds of a lane -/

/-- The items of a lane from round `r` on, for `n` rounds of which those with `valid` have
a tile: each round uses slot `r & 1`, releases it exactly when a round `r + 2` follows, and
works only on tiles that are there.

A `pair` asks for tiles in both its rounds.  The fuse test does not compare the offset in
the middle with `0` and `t`, as the test of the AIC on each chunk does; on a pair the two
tests agree because no length wraps around. -/
inductive LaneRounds (valid : ℕ → Bool) (n : ℕ) : ℕ → List LaneItem → Prop
  | done : LaneRounds valid n n []
  | single {r : ℕ} {task : PipelineTask} {items : List LaneItem} (hr : r < n)
      (hslot : task.slotId = r % 2) (hreuse : task.willReuseSlot = decide (r + 2 < n))
      (hwork : task.hasWork = true → valid r = true ∧ task.firstRepeat < task.repeatEnd)
      (hrest : LaneRounds valid n (r + 1) items) : LaneRounds valid n r (.single task :: items)
  | pair {r : ℕ} {chunks : ChunkPair} {items : List LaneItem} (hr : r + 1 < n)
      (hslot : chunks.firstSlotId = r % 2 ∧ chunks.secondSlotId = (r + 1) % 2)
      (hreuse : chunks.reuseFirstSlot = decide (r + 2 < n) ∧
        chunks.reuseSecondSlot = decide (r + 1 + 2 < n))
      (hvalid : valid r = true ∧ valid (r + 1) = true)
      (hrest : LaneRounds valid n (r + 2) items) : LaneRounds valid n r (.pair chunks :: items)

/-- The commands of a lane, one list for each round. -/
def laneParts (tiling : ChunkScaledDotKktTilingData) (groupId : ℕ) (items : List LaneItem) :
    List (List LaneOp) :=
  items.flatMap (LaneItem.parts tiling groupId)

/-- A round's commands follow the protocol. -/
def PartOk (groupId : ℕ) (valid : ℕ → Bool) (n r : ℕ) (ops : List LaneOp) : Prop :=
  ∃ work, (work.isSome = true → valid r = true) ∧
    ops.filter LaneOp.isProtocol = protocolOps groupId (r % 2) work (decide (r + 2 < n))

theorem copy_of_mem_protocolOps {groupId slotId g s c a b : ℕ} {work : Option KktCopy}
    {reuse : Bool} (h : .copyKkt g s c a b ∈ protocolOps groupId slotId work reuse) :
    g = groupId ∧ s = slotId ∧ work.isSome = true := by
  cases work <;> cases reuse <;> simp_all [protocolOps]

/-- A round copies only its own slot, and only when there is a tile. -/
theorem PartOk.copy {groupId n r : ℕ} {valid : ℕ → Bool} {ops : List LaneOp}
    (h : PartOk groupId valid n r ops) {g s c a b : ℕ} (hop : .copyKkt g s c a b ∈ ops) :
    g = groupId ∧ s = r % 2 ∧ valid r = true := by
  obtain ⟨work, hvalid, hprotocol⟩ := h
  have hmem : .copyKkt g s c a b ∈ ops.filter LaneOp.isProtocol :=
    List.mem_filter.mpr ⟨hop, rfl⟩
  rw [hprotocol] at hmem
  obtain ⟨hg, hs, hwork⟩ := copy_of_mem_protocolOps hmem
  exact ⟨hg, hs, hvalid hwork⟩

/-- **Every round of a lane follows the protocol.** -/
theorem LaneRounds.parts {valid : ℕ → Bool} {n r : ℕ} {items : List LaneItem}
    (h : LaneRounds valid n r items) (tiling : ChunkScaledDotKktTilingData) (groupId : ℕ) :
    r + (laneParts tiling groupId items).length = n ∧
      ∀ i (hi : i < (laneParts tiling groupId items).length),
        PartOk groupId valid n (r + i) ((laneParts tiling groupId items)[i]) := by
  induction h with
  | done => exact ⟨rfl, fun i hi => absurd hi (Nat.not_lt_zero i)⟩
  | @single r task items hr hslot hreuse hwork hrest ih =>
      obtain ⟨hlen, hparts⟩ := ih
      have hcons : laneParts tiling groupId (.single task :: items) =
          task.ops tiling groupId :: laneParts tiling groupId items := rfl
      rw [hcons]
      refine ⟨by rw [List.length_cons]; omega, ?_⟩
      intro i hi
      cases i with
      | zero =>
          refine ⟨task.kktCopy, ?_, ?_⟩
          · intro hsome
            refine (hwork ?_).1
            by_contra hno
            simp [PipelineTask.kktCopy, hno] at hsome
          · rw [List.getElem_cons_zero, task.ops_protocol tiling groupId fun h => (hwork h).2,
              hslot, hreuse]
            rfl
      | succ i =>
          have := hparts i (by simpa using hi)
          rw [Nat.add_assoc, Nat.add_comm 1 i] at this
          exact this
  | @pair r chunks items hr hslot hreuse hvalid hrest ih =>
      obtain ⟨hlen, hparts⟩ := ih
      have hcons : laneParts tiling groupId (.pair chunks :: items) =
          chunks.firstOps groupId :: chunks.secondOps tiling.t groupId ::
            laneParts tiling groupId items := rfl
      rw [hcons]
      refine ⟨by rw [List.length_cons, List.length_cons]; omega, ?_⟩
      intro i hi
      match i with
      | 0 =>
          refine ⟨some ⟨64, 0, 64⟩, fun _ => hvalid.1, ?_⟩
          rw [List.getElem_cons_zero, chunks.firstOps_protocol groupId, hslot.1, hreuse.1]
          rfl
      | 1 =>
          refine ⟨some ⟨64, 0, 64⟩, fun _ => hvalid.2, ?_⟩
          rw [List.getElem_cons_succ, List.getElem_cons_zero,
            chunks.secondOps_protocol tiling.t groupId, hslot.2, hreuse.2]
      | i + 2 =>
          have := hparts i (by simpa using hi)
          rw [Nat.add_assoc, Nat.add_comm 2 i] at this
          exact this

/-- The same from the first round on. -/
theorem LaneRounds.partOk {valid : ℕ → Bool} {n : ℕ} {items : List LaneItem}
    (h : LaneRounds valid n 0 items) (tiling : ChunkScaledDotKktTilingData) (groupId : ℕ) :
    (laneParts tiling groupId items).length = n ∧
      ∀ r < n, PartOk groupId valid n r ((laneParts tiling groupId items).getD r []) := by
  obtain ⟨hlen, hparts⟩ := h.parts tiling groupId
  rw [Nat.zero_add] at hlen
  refine ⟨hlen, ?_⟩
  intro r hr
  have hlt : r < (laneParts tiling groupId items).length := by omega
  have hpart := hparts r hlt
  rw [Nat.zero_add] at hpart
  rwa [List.getD_eq_getElem?_getD, List.getElem?_eq_getElem hlt, Option.getD_some]

end VectorStage

end ChunkScaledDotKkt
