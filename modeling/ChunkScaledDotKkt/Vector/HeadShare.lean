import ChunkScaledDotKkt.Vector.CopyOut
import ChunkScaledDotKkt.Vector.OutputHistory

/-!
# The share of a lane

The two lanes of a group run the same rounds and split each of them: the query heads of
the KV head, or the rows of the chunk when there is only one head.  A batch takes two of
a lane's heads, or the last one.

## Main results

* `PipelineTask.batch_writes`, `adjacentFullChunk_writes` — what a record writes is what
  its lane owns of the heads of its batch.
* `Owns.unique` — an element has one owner.
-/

namespace ChunkScaledDotKkt

open MachineInt BlockCopy

/-- The element `A[head, token, col]`. -/
def elementOffset (t head token : ℤ) (col : ℕ) : ℤ := (head * t + token) * ROW_ELEMS + col

/-- Tokens of one head do not reach into the next. -/
theorem elementOffset_inj {t head token head' token' : ℤ} {col col' : ℕ} (h0 : 0 ≤ token)
    (hlt : token < t) (h0' : 0 ≤ token') (hlt' : token' < t) (hcol : col < 64) (hcol' : col' < 64)
    (heq : elementOffset t head token col = elementOffset t head' token' col') :
    head = head' ∧ token = token' ∧ col = col' := by
  simp only [elementOffset, ROW_ELEMS] at heq
  have hrow : token + head * t = token' + head' * t := by omega
  have hdiv : ∀ {x y : ℤ}, 0 ≤ x → x < t → (x + y * t) / t = y := by
    intro x y hx hxt
    rw [Int.add_mul_ediv_right _ _ (by omega), Int.ediv_eq_zero_of_lt hx hxt, Int.zero_add]
  have hhead : head = head' := by
    rw [← hdiv (y := head) h0 hlt, hrow, hdiv h0' hlt']
  subst hhead
  exact ⟨rfl, by omega, by omega⟩

namespace ChunkOffsets

/-- No chunk of the array has a negative length. -/
def Nondecreasing (offsets : ChunkOffsets) (n : ℕ) : Prop :=
  ∀ c : ℕ, c < n → offsets.getValue c ≤ offsets.getValue (c + 1)

theorem full_nondecreasing {n : ℕ} (h : n ≤ 1000) : full.Nondecreasing n := by
  intro c hc
  simp only [full]
  split_ifs <;> omega

variable {offsets : ChunkOffsets} {n : ℕ}

theorem Nondecreasing.not_wraps (h : offsets.Nondecreasing n) {c : ℕ} (hc : c < n) :
    ¬ offsets.Wraps c := by
  have := h c hc
  unfold Wraps
  omega

theorem Nondecreasing.le (h : offsets.Nondecreasing n) {c c' : ℕ} (hle : c ≤ c') (hc : c' ≤ n) :
    offsets.getValue c ≤ offsets.getValue c' := by
  induction c', hle using Nat.le_induction with
  | base => exact le_refl _
  | succ c' _ ih =>
      have hstep := h c' (by omega)
      have hih := ih (by omega)
      push_cast
      omega

end ChunkOffsets

namespace VectorStage

/-! ## Ownership -/

/-- The lane's first query head of a KV head. -/
def laneFirst (numRepeat : ℤ) (lane : ℕ) : ℤ :=
  if AIVS_PER_AIC ≤ numRepeat then lane * numRepeat / 2 else 0

/-- The end of the lane's query heads of a KV head. -/
def laneLast (numRepeat : ℤ) (lane : ℕ) : ℤ :=
  if AIVS_PER_AIC ≤ numRepeat then (lane + 1) * numRepeat / 2 else 1

/-- Batch `b` of the lane owns the head and the token, in the task of a chunk and a KV
head. -/
structure Owns (tiling : ChunkScaledDotKktTilingData) (offsets : ChunkOffsets)
    (lane c kv b : ℕ) (head token : ℤ) : Prop where
  inRange : offsets.InRange tiling.t c
  start_le : offsets.getValue c ≤ token
  lt_end : token < offsets.getValue (c + 1)
  batch_le : kv * tiling.numRepeat + laneFirst tiling.numRepeat lane + GATE_HEAD_BATCH * b ≤ head
  lt_batch : head < kv * tiling.numRepeat + laneFirst tiling.numRepeat lane +
    GATE_HEAD_BATCH * (b + 1)
  lt_last : head < kv * tiling.numRepeat + laneLast tiling.numRepeat lane
  /-- With one head the lanes split the rows. -/
  row : tiling.numRepeat < AIVS_PER_AIC →
    offsets.getValue c + FALLBACK_ROWS_PER_AIV * lane ≤ token ∧
      token < offsets.getValue c + FALLBACK_ROWS_PER_AIV * (lane + 1)

variable {tiling : ChunkScaledDotKktTilingData} {offsets : ChunkOffsets}
  {lane lane' c c' kv kv' b b' : ℕ} {head token a : ℤ}

theorem laneFirst_zero {numRepeat : ℤ} : laneFirst numRepeat 0 = 0 := by
  simp [laneFirst]

theorem laneLast_zero {numRepeat : ℤ} (h : 2 ≤ numRepeat) :
    laneLast numRepeat 0 = numRepeat / 2 := by
  simp [laneLast, AIVS_PER_AIC, h]

theorem laneFirst_one {numRepeat : ℤ} (h : 2 ≤ numRepeat) :
    laneFirst numRepeat 1 = numRepeat / 2 := by
  simp [laneFirst, AIVS_PER_AIC, h]

theorem laneLast_one {numRepeat : ℤ} (h : 2 ≤ numRepeat) : laneLast numRepeat 1 = numRepeat := by
  simp only [laneLast, AIVS_PER_AIC]
  omega

/-- The lanes' heads are heads of the KV head. -/
theorem lane_heads {numRepeat : ℤ} (hrep : 1 ≤ numRepeat) (hlane : lane < 2) :
    0 ≤ laneFirst numRepeat lane ∧ laneFirst numRepeat lane < laneLast numRepeat lane ∧
      laneLast numRepeat lane ≤ numRepeat := by
  have hcases : lane = 0 ∨ lane = 1 := by omega
  by_cases h : 2 ≤ numRepeat
  · cases hcases with
    | inl h0 =>
        subst h0
        rw [laneFirst_zero, laneLast_zero h]
        omega
    | inr h1 =>
        subst h1
        rw [laneFirst_one h, laneLast_one h]
        omega
  · simp only [laneFirst, laneLast, AIVS_PER_AIC, h, if_false]
    omega

theorem Owns.first_le (h : Owns tiling offsets lane c kv b head token) :
    kv * tiling.numRepeat + laneFirst tiling.numRepeat lane ≤ head := by
  have hbatch := h.batch_le
  rw [GATE_HEAD_BATCH] at hbatch
  omega

theorem Owns.token_nonneg (h : Owns tiling offsets lane c kv b head token) : 0 ≤ token :=
  h.inRange.nonneg.trans h.start_le

theorem Owns.token_lt (h : Owns tiling offsets lane c kv b head token) : token < tiling.t :=
  h.lt_end.trans_le h.inRange.end_le

/-- The head of an owned element belongs to the KV head. -/
theorem Owns.head_div (h : Owns tiling offsets lane c kv b head token)
    (hrep : 1 ≤ tiling.numRepeat) (hlane : lane < 2) : head / tiling.numRepeat = kv := by
  obtain ⟨h0, -, h1⟩ := lane_heads hrep hlane
  have hfirst := h.first_le
  have hlast := h.lt_last
  have hsplit : head = (head - kv * tiling.numRepeat) + kv * tiling.numRepeat := by omega
  rw [hsplit, Int.add_mul_ediv_right _ _ (by omega), Int.ediv_eq_zero_of_lt (by omega) (by omega),
    Int.zero_add]

/-- A later chunk starts at or after the end of an earlier one. -/
theorem Owns.not_lt {n : ℕ} (h : Owns tiling offsets lane c kv b head token)
    (h' : Owns tiling offsets lane' c' kv' b' head token) (hmono : offsets.Nondecreasing n)
    (hc' : c' < n) : ¬ c < c' := by
  intro hlt
  have hle := hmono.le (Nat.succ_le_of_lt hlt) hc'.le
  have h1 := h.lt_end
  have h2 := h'.start_le
  push_cast at hle
  omega

/-- The lanes share neither a head nor, with one head, a row. -/
theorem Owns.lane_eq (h : Owns tiling offsets lane c kv b head token)
    (h' : Owns tiling offsets lane' c kv b' head token) (hlane : lane < 2) (hlane' : lane' < 2) :
    lane = lane' := by
  by_cases hsplit : 2 ≤ tiling.numRepeat
  · have hle := h.first_le
    have hlt := h.lt_last
    have hle' := h'.first_le
    have hlt' := h'.lt_last
    by_contra hne
    have hcases : lane = 0 ∧ lane' = 1 ∨ lane = 1 ∧ lane' = 0 := by omega
    cases hcases with
    | inl h01 =>
        obtain ⟨rfl, rfl⟩ := h01
        rw [laneLast_zero hsplit] at hlt
        rw [laneFirst_one hsplit] at hle'
        omega
    | inr h10 =>
        obtain ⟨rfl, rfl⟩ := h10
        rw [laneFirst_one hsplit] at hle
        rw [laneLast_zero hsplit] at hlt'
        omega
  · have hrow := h.row (by rw [AIVS_PER_AIC]; omega)
    have hrow' := h'.row (by rw [AIVS_PER_AIC]; omega)
    simp only [FALLBACK_ROWS_PER_AIV] at hrow hrow'
    omega

/-- A head belongs to one batch. -/
theorem Owns.batch_eq (h : Owns tiling offsets lane c kv b head token)
    (h' : Owns tiling offsets lane c' kv b' head token) : b = b' := by
  have hb := h.batch_le
  have hb' := h'.batch_le
  have hlt := h.lt_batch
  have hlt' := h'.lt_batch
  simp only [GATE_HEAD_BATCH] at hb hb' hlt hlt'
  omega

/-- An address names one head and one token. -/
theorem Owns.same_element {col col' : ℕ} {head' token' : ℤ}
    (h : Owns tiling offsets lane c kv b head token)
    (h' : Owns tiling offsets lane' c' kv' b' head' token') (hcol : col < 64) (hcol' : col' < 64)
    (heq : elementOffset tiling.t head token col = elementOffset tiling.t head' token' col') :
    head = head' ∧ token = token' := by
  obtain ⟨hhead, htoken, -⟩ := elementOffset_inj h.token_nonneg h.token_lt h'.token_nonneg
    h'.token_lt hcol hcol' heq
  exact ⟨hhead, htoken⟩

/-- **An element has one owner**: one chunk, one KV head, one lane and one batch. -/
theorem Owns.unique {n : ℕ} (h : Owns tiling offsets lane c kv b head token)
    (h' : Owns tiling offsets lane' c' kv' b' head token) (hrep : 1 ≤ tiling.numRepeat)
    (hmono : offsets.Nondecreasing n) (hc : c < n) (hc' : c' < n) (hlane : lane < 2)
    (hlane' : lane' < 2) : c = c' ∧ kv = kv' ∧ lane = lane' ∧ b = b' := by
  have hkv : kv = kv' := by
    have := (h.head_div hrep hlane).symm.trans (h'.head_div hrep hlane')
    exact_mod_cast this
  have hlt := h.not_lt h' hmono hc'
  have hgt := h'.not_lt h hmono hc
  obtain rfl : c = c' := by omega
  subst hkv
  obtain rfl := h.lane_eq h' hlane hlane'
  exact ⟨rfl, rfl, rfl, h.batch_eq h'⟩

/-- Every head and token of a chunk in range has an owner. -/
theorem exists_owns (hin : offsets.InRange tiling.t c) (hstart : offsets.getValue c ≤ token)
    (hend : token < offsets.getValue (c + 1)) (hrep : 1 ≤ tiling.numRepeat)
    (hfirst : kv * tiling.numRepeat ≤ head)
    (hlast : head < kv * tiling.numRepeat + tiling.numRepeat) :
    ∃ lane < 2, ∃ b, Owns tiling offsets lane c kv b head token := by
  -- the batch follows from the lane
  have batch : ∀ lane : ℕ, kv * tiling.numRepeat + laneFirst tiling.numRepeat lane ≤ head →
      head < kv * tiling.numRepeat + laneLast tiling.numRepeat lane →
      (tiling.numRepeat < AIVS_PER_AIC → offsets.getValue c + FALLBACK_ROWS_PER_AIV * lane ≤ token ∧
        token < offsets.getValue c + FALLBACK_ROWS_PER_AIV * (lane + 1)) →
      ∃ b, Owns tiling offsets lane c kv b head token := by
    intro lane hle hlt hrow
    refine ⟨((head - (kv * tiling.numRepeat + laneFirst tiling.numRepeat lane)) / 2).toNat, hin,
      hstart, hend, ?_, ?_, hlt, hrow⟩
    · rw [GATE_HEAD_BATCH]
      omega
    · rw [GATE_HEAD_BATCH]
      omega
  by_cases hsplit : 2 ≤ tiling.numRepeat
  · have hno : ¬ tiling.numRepeat < AIVS_PER_AIC := by
      rw [AIVS_PER_AIC]
      omega
    by_cases hhalf : head < kv * tiling.numRepeat + tiling.numRepeat / 2
    · refine ⟨0, by decide, batch 0 ?_ ?_ fun h => absurd h hno⟩
      · rw [laneFirst_zero]
        omega
      · rw [laneLast_zero hsplit]
        omega
    · refine ⟨1, by decide, batch 1 ?_ ?_ fun h => absurd h hno⟩
      · rw [laneFirst_one hsplit]
        omega
      · rw [laneLast_one hsplit]
        omega
  · have hlen := hin.len_le
    have hone : ∀ lane, laneFirst tiling.numRepeat lane = 0 ∧
        laneLast tiling.numRepeat lane = 1 := by
      intro lane
      simp [laneFirst, laneLast, AIVS_PER_AIC, hsplit]
    obtain ⟨lane, hlane, hrow⟩ : ∃ lane < 2, offsets.getValue c + 32 * (lane : ℕ) ≤ token ∧
        token < offsets.getValue c + 32 * ((lane : ℕ) + 1) :=
      ⟨((token - offsets.getValue c) / 32).toNat, by omega, by omega, by omega⟩
    refine ⟨lane, hlane, batch lane ?_ ?_ fun _ => hrow⟩
    · rw [(hone lane).1]
      omega
    · rw [(hone lane).2]
      omega

/-! ## What a record writes -/

/-- The elements that a launch of whole rows writes. -/
theorem mem_elements {t firstHead start : ℤ} {record : OutputRecord} {heads rows pitch : ℕ}
    (h : record.HeadsPlaced t firstHead start heads rows pitch) :
    a ∈ targets (record.launchMoves t) ↔ ∃ head token, ∃ col < 64,
      (firstHead ≤ head ∧ head < firstHead + heads) ∧ (start ≤ token ∧ token < start + rows) ∧
        a = elementOffset t head token col := by
  simp only [targets, List.mem_map, elementOffset, ROW_ELEMS]
  constructor
  · rintro ⟨move, hmove, ha⟩
    obtain ⟨head, x, j, hh, hx, hj, rfl⟩ := (h.placed move).mp hmove
    refine ⟨firstHead + head, start + x, j, hj, by omega, by omega, ?_⟩
    rw [← ha]
    ring
  · rintro ⟨head, token, col, hcol, hhead, htoken, ha⟩
    refine ⟨⟨(head - firstHead).toNat * pitch + (token - start).toNat * 64 + col, a⟩,
      (h.placed _).mpr ⟨(head - firstHead).toNat, (token - start).toNat, col, by omega, by omega,
        hcol, ?_⟩, rfl⟩
    have h1 : firstHead + (head - firstHead).toNat = head := by omega
    have h2 : head * t + start + (token - start).toNat = head * t + token := by omega
    rw [h1, h2, ha]

namespace PipelineTask

variable {task : PipelineTask}

/-- The loop runs exactly the batches that start inside the task's heads. -/
theorem lt_batchCount_iff (h : task.firstRepeat < task.repeatEnd) {batchId : ℕ} :
    batchId < task.batchCount ↔ task.batchRepeat batchId < task.repeatEnd := by
  rw [batchCount, batchRepeat, GATE_HEAD_BATCH, Int.tdiv_eq_ediv_of_nonneg (by omega)]
  omega

/-- Every batch of the loop has one head or two. -/
theorem batchHeads_repeatEnd {batchId : ℕ} (h : task.firstRepeat < task.repeatEnd)
    (hb : batchId < task.batchCount) :
    task.batchHeads batchId = 1 ∧ task.repeatEnd = task.batchRepeat batchId + 1 ∨
      task.batchHeads batchId = 2 ∧ task.batchRepeat batchId + 2 ≤ task.repeatEnd := by
  rw [lt_batchCount_iff h] at hb
  rw [batchHeads, GATE_HEAD_BATCH]
  omega

/-- Where the heads of a batch land; only a task without a row split has pairs. -/
theorem batchRecord_placed {batchId : ℕ} (h : task.firstRepeat < task.repeatEnd)
    (hb : batchId < task.batchCount) (hrows : task.rowCount ≤ 64) (hrow : 0 ≤ task.rowStart)
    (hsplit : task.rowStart = 0 ∨ task.repeatEnd = task.firstRepeat + 1) :
    (task.batchRecord tiling batchId).HeadsPlaced tiling.t
      (task.firstHead tiling + task.batchRepeat batchId) (task.start + task.rowStart)
      (task.batchHeads batchId) task.rowCount.toNat 4096 := by
  have hfit : task.rowCount.toNat * 64 < 4294967296 := by omega
  have hcast : (task.rowStart.toNat : ℤ) = task.rowStart := Int.toNat_of_nonneg hrow
  cases batchHeads_repeatEnd h hb with
  | inl hone =>
      have hno : ¬ ((1 : ℕ) : ℤ) = GATE_HEAD_BATCH := by decide
      simp only [batchRecord, hone.1, hno, if_false, hcast]
      exact queueDelayedSingleOutput_placed tiling.t _ task.start task.rowStart hfit
  | inr htwo =>
      have hpair : ((2 : ℕ) : ℤ) = GATE_HEAD_BATCH := rfl
      have hzero : task.rowStart = 0 := by
        have hle : task.firstRepeat ≤ task.batchRepeat batchId := by
          rw [batchRepeat, GATE_HEAD_BATCH]
          omega
        omega
      simp only [batchRecord, htwo.1, hpair, if_true, hzero, Int.add_zero]
      exact queueDelayedPairOutput_placed tiling.t _ task.start hfit

theorem batchRecord_nodup {batchId : ℕ} (hrows : task.rowCount ≤ 64)
    (hle : task.rowCount ≤ tiling.t) (h0 : 0 ≤ tiling.t) :
    (targets ((task.batchRecord tiling batchId).launchMoves tiling.t)).Nodup := by
  have hactive : u32 (task.rowCount.toNat * ROW_ELEMS) = _ := activeElems_eq (by omega)
  have helems : ((u32 (task.rowCount.toNat * ROW_ELEMS)).toNat : ℤ) ≤ tiling.t * ROW_ELEMS := by
    rw [hactive, Int.toNat_natCast, ROW_ELEMS]
    omega
  by_cases hheads : (task.batchHeads batchId : ℤ) = GATE_HEAD_BATCH
  · simp only [batchRecord, if_pos hheads]
    exact OutputRecord.nodup_targets (queueDelayedPairOutput_pitched _ _ _ _) helems
  · simp only [batchRecord, if_neg hheads]
    exact OutputRecord.nodup_targets (queueDelayedSingleOutput_pitched _ _ _ _ _) helems

end PipelineTask

/-- The record writes, each once, the elements that batch `b` owns in the `n` chunks from
`c` on. -/
structure WritesBatch (tiling : ChunkScaledDotKktTilingData) (offsets : ChunkOffsets)
    (lane c kv b n : ℕ) (output : OutputRecord) : Prop where
  once : (targets (output.launchMoves tiling.t)).Nodup
  mem_iff : ∀ a, a ∈ targets (output.launchMoves tiling.t) ↔ ∃ i < n, ∃ head token, ∃ col < 64,
    Owns tiling offsets lane (c + i) kv b head token ∧ a = elementOffset tiling.t head token col

/-! ## A single task -/

/-- The task works on the lane's share of a chunk in range. -/
structure PipelineTask.Shares (tiling : ChunkScaledDotKktTilingData) (offsets : ChunkOffsets)
    (lane c kv : ℕ) (task : PipelineTask) : Prop where
  inRange : offsets.InRange tiling.t c
  start : task.start = offsets.getValue c
  chunkLen : task.chunkLen = offsets.getValue (c + 1) - offsets.getValue c
  kvHeadId : task.kvHeadId = kv
  firstRepeat : task.firstRepeat = laneFirst tiling.numRepeat lane
  repeatEnd : task.repeatEnd = laneLast tiling.numRepeat lane
  rowStart_nonneg : 0 ≤ task.rowStart
  rowCount_le : task.rowCount ≤ 64 ∧ task.rowCount ≤ tiling.t
  pair_rows : task.rowStart = 0 ∨ task.repeatEnd = task.firstRepeat + 1
  token : ∀ token, task.start + task.rowStart ≤ token ∧
      token < task.start + task.rowStart + task.rowCount ↔
    offsets.getValue c ≤ token ∧ token < offsets.getValue (c + 1) ∧
      (tiling.numRepeat < AIVS_PER_AIC →
        offsets.getValue c + FALLBACK_ROWS_PER_AIV * lane ≤ token ∧
          token < offsets.getValue c + FALLBACK_ROWS_PER_AIV * (lane + 1))
  hasWork : task.hasWork = decide (task.rowCount > 0)

section Single

variable {taskId localRound : ℤ} {reuse : Bool} (hrep : 1 ≤ tiling.numRepeat) (hlane : lane < 2)
  (hc : taskId.tdiv tiling.hg = c) (hkv : taskId.tmod tiling.hg = kv)

include hc in
/-- A chunk that is not in range is no work. -/
theorem pipelineTask_idle (hw : ¬ offsets.Wraps c) (hno : ¬ offsets.InRange tiling.t c) :
    (pipelineTask tiling offsets taskId lane localRound reuse).hasWork = false := by
  have hvalid : validChunk tiling.t offsets c = false := by
    rw [Bool.eq_false_iff]
    intro h
    exact hno ((ChunkOffsets.validChunk_iff hw).mp h)
  simp [pipelineTask, hc, hvalid]

include hrep hlane hc hkv in
theorem pipelineTask_shares (hin : offsets.InRange tiling.t c) :
    (pipelineTask tiling offsets taskId lane localRound reuse).Shares tiling offsets lane c kv := by
  have hvalid : validChunk tiling.t offsets c = true :=
    (ChunkOffsets.validChunk_iff hin.not_wraps).mpr hin
  have hlen := hin.chunkLen_eq
  have hlt := hin.start_lt
  have hend := hin.end_le
  have h0 := hin.nonneg
  have hle := hin.len_le
  obtain ⟨hfirst, hlast, -⟩ := lane_heads hrep hlane
  by_cases hsplit : tiling.numRepeat ≥ AIVS_PER_AIC
  · have hno : ¬ tiling.numRepeat < AIVS_PER_AIC := by omega
    have hfirst_eq : ((lane : ℤ) * tiling.numRepeat).tdiv AIVS_PER_AIC =
        laneFirst tiling.numRepeat lane := by
      rw [laneFirst, if_pos hsplit, Int.tdiv_eq_ediv_of_nonneg (by positivity)]
      rfl
    have hlast_eq : (((lane : ℤ) + 1) * tiling.numRepeat).tdiv AIVS_PER_AIC =
        laneLast tiling.numRepeat lane := by
      rw [laneLast, if_pos hsplit, Int.tdiv_eq_ediv_of_nonneg (by positivity)]
      rfl
    have htask : pipelineTask tiling offsets taskId lane localRound reuse =
        { slotId := (slotIdOf localRound).toNat, kvHeadId := kv, start := offsets.getValue c,
          chunkLen := offsets.chunkLen c, rowStart := 0, rowCount := offsets.chunkLen c,
          firstRepeat := laneFirst tiling.numRepeat lane,
          repeatEnd := laneLast tiling.numRepeat lane,
          hasWork := decide (offsets.chunkLen c > 0), willReuseSlot := reuse } := by
      simp [pipelineTask, hc, hkv, hvalid, hsplit, hfirst_eq, hlast_eq, hlast]
    have hcount : offsets.chunkLen c ≤ 64 ∧ offsets.chunkLen c ≤ tiling.t := by omega
    rw [htask]
    refine ⟨hin, rfl, hlen, rfl, rfl, rfl, le_refl _, hcount, Or.inl rfl, ?_, rfl⟩
    intro token
    simp only [hno, false_implies, and_true]
    omega
  · have hfew : tiling.numRepeat < AIVS_PER_AIC := by omega
    have hone : laneFirst tiling.numRepeat lane = 0 ∧ laneLast tiling.numRepeat lane = 1 := by
      rw [laneFirst, laneLast, if_neg hsplit, if_neg hsplit]
      exact ⟨rfl, rfl⟩
    have htask : pipelineTask tiling offsets taskId lane localRound reuse =
        { slotId := (slotIdOf localRound).toNat, kvHeadId := kv, start := offsets.getValue c,
          chunkLen := offsets.chunkLen c, rowStart := lane * FALLBACK_ROWS_PER_AIV,
          rowCount := max 0 (min FALLBACK_ROWS_PER_AIV
            (offsets.chunkLen c - lane * FALLBACK_ROWS_PER_AIV)),
          firstRepeat := 0, repeatEnd := 1,
          hasWork := decide (max 0 (min FALLBACK_ROWS_PER_AIV
            (offsets.chunkLen c - lane * FALLBACK_ROWS_PER_AIV)) > 0),
          willReuseSlot := reuse } := by
      simp [pipelineTask, hc, hkv, hvalid, hsplit]
    have hcount : max 0 (min FALLBACK_ROWS_PER_AIV
        (offsets.chunkLen c - lane * FALLBACK_ROWS_PER_AIV)) ≤ 64 ∧
        max 0 (min FALLBACK_ROWS_PER_AIV
          (offsets.chunkLen c - lane * FALLBACK_ROWS_PER_AIV)) ≤ tiling.t := by
      rw [FALLBACK_ROWS_PER_AIV]
      omega
    have hstart : (0 : ℤ) ≤ lane * FALLBACK_ROWS_PER_AIV := by
      rw [FALLBACK_ROWS_PER_AIV]
      omega
    rw [htask]
    refine ⟨hin, rfl, hlen, rfl, hone.1.symm, hone.2.symm, hstart, hcount, Or.inr rfl, ?_, rfl⟩
    intro token
    simp only [hfew, true_implies, FALLBACK_ROWS_PER_AIV]
    omega

end Single

/-! ## The records of an item -/

/-- The records write what the lane owns of the `n` chunks from `c` on, batch by batch and
each element once. -/
structure WritesShare (tiling : ChunkScaledDotKktTilingData) (offsets : ChunkOffsets)
    (lane c kv n : ℕ) (outputs : List OutputRecord) : Prop where
  batch : ∀ output ∈ outputs, ∃ b, WritesBatch tiling offsets lane c kv b n output
  owned : ∀ i < n, ∀ b head token, Owns tiling offsets lane (c + i) kv b head token →
    ∃ output ∈ outputs, WritesBatch tiling offsets lane c kv b n output
  once : (outputs.flatMap fun output => targets (output.launchMoves tiling.t)).Nodup

namespace PipelineTask.Shares

variable {task : PipelineTask} (h : task.Shares tiling offsets lane c kv)
  (hrep : 1 ≤ tiling.numRepeat) (hlane : lane < 2)

include h hrep hlane in
theorem firstRepeat_lt : task.firstRepeat < task.repeatEnd := by
  rw [h.firstRepeat, h.repeatEnd]
  exact (lane_heads hrep hlane).2.1

include h hrep hlane in
/-- **A batch of a single task.** -/
theorem writes (hwork : task.hasWork = true) (hb : b < task.batchCount) :
    WritesBatch tiling offsets lane c kv b 1 (task.batchRecord tiling b) := by
  have hlt := h.firstRepeat_lt hrep hlane
  have hplaced : (task.batchRecord tiling b).HeadsPlaced tiling.t _ _ _ _ _ :=
    batchRecord_placed hlt hb h.rowCount_le.1 h.rowStart_nonneg h.pair_rows
  have hcount : (task.rowCount.toNat : ℤ) = task.rowCount := by
    have hpos := h.hasWork.symm.trans hwork
    rw [decide_eq_true_eq] at hpos
    omega
  have hfirst : task.firstHead tiling = kv * tiling.numRepeat := by
    rw [firstHead, h.kvHeadId]
  -- the heads of the batch are the owned ones
  have hhead : ∀ head, (task.firstHead tiling + task.batchRepeat b ≤ head ∧
      head < task.firstHead tiling + task.batchRepeat b + task.batchHeads b) ↔
      kv * tiling.numRepeat + laneFirst tiling.numRepeat lane + GATE_HEAD_BATCH * b ≤ head ∧
        head < kv * tiling.numRepeat + laneFirst tiling.numRepeat lane + GATE_HEAD_BATCH * (b + 1) ∧
        head < kv * tiling.numRepeat + laneLast tiling.numRepeat lane := by
    intro head
    have hcases := batchHeads_repeatEnd hlt hb
    rw [hfirst, ← h.firstRepeat, ← h.repeatEnd]
    rw [batchRepeat, GATE_HEAD_BATCH] at hcases ⊢
    omega
  constructor
  · exact batchRecord_nodup h.rowCount_le.1 h.rowCount_le.2
      (h.inRange.nonneg.trans (h.inRange.start_lt.le.trans h.inRange.end_le))
  · intro a
    rw [mem_elements hplaced]
    constructor
    · rintro ⟨head, token, col, hcol, hin, htoken, ha⟩
      rw [hcount, h.token] at htoken
      obtain ⟨h1, h2, h3⟩ := (hhead head).mp hin
      exact ⟨0, by decide, head, token, col, hcol,
        ⟨h.inRange, htoken.1, htoken.2.1, h1, h2, h3, htoken.2.2⟩, ha⟩
    · rintro ⟨i, hi, head, token, col, hcol, howns, ha⟩
      obtain rfl : i = 0 := by omega
      refine ⟨head, token, col, hcol, (hhead head).mpr ⟨howns.batch_le, howns.lt_batch,
        howns.lt_last⟩, ?_, ha⟩
      rw [hcount, h.token]
      exact ⟨howns.start_le, howns.lt_end, howns.row⟩

include h hrep hlane in
/-- An owned element is work for the task, in a batch that it runs. -/
theorem batch_of_owns (howns : Owns tiling offsets lane c kv b head token) :
    task.hasWork = true ∧ b < task.batchCount := by
  have htoken := (h.token token).mpr ⟨howns.start_le, howns.lt_end, howns.row⟩
  constructor
  · rw [h.hasWork, decide_eq_true_eq]
    omega
  · have hle := howns.batch_le
    have hlt := howns.lt_last
    rw [lt_batchCount_iff (h.firstRepeat_lt hrep hlane), h.repeatEnd, batchRepeat, h.firstRepeat]
    rw [GATE_HEAD_BATCH] at hle ⊢
    omega

include h hrep hlane in
/-- **The records of a single task.** -/
theorem writesShare : WritesShare tiling offsets lane c kv 1 (task.records tiling) := by
  cases hwork : task.hasWork with
  | false =>
      have hnil : task.records tiling = [] := by simp [records, hwork]
      rw [hnil]
      refine ⟨by simp, ?_, List.nodup_nil⟩
      intro i hi b head token howns
      obtain rfl : i = 0 := by omega
      rw [(h.batch_of_owns hrep hlane howns).1] at hwork
      cases hwork
  | true =>
      have hrecords : task.records tiling =
          (List.range task.batchCount).map (task.batchRecord tiling) := by
        simp [records, hwork]
      rw [hrecords]
      refine ⟨?_, ?_, ?_⟩
      · intro output hout
        obtain ⟨b, hb, rfl⟩ := List.mem_map.mp hout
        exact ⟨b, h.writes hrep hlane hwork (List.mem_range.mp hb)⟩
      · intro i hi b head token howns
        obtain rfl : i = 0 := by omega
        have hb := (h.batch_of_owns hrep hlane howns).2
        exact ⟨_, List.mem_map.mpr ⟨b, List.mem_range.mpr hb, rfl⟩, h.writes hrep hlane hwork hb⟩
      · rw [List.flatMap_map, List.nodup_flatMap]
        constructor
        · intro b hb
          exact (h.writes hrep hlane hwork (List.mem_range.mp hb)).once
        · refine List.nodup_range.pairwise_of_forall_ne ?_
          intro b hb b' hb' hne a ha ha'
          obtain ⟨i, hi, head, token, col, hcol, howns, rfl⟩ :=
            ((h.writes hrep hlane hwork (List.mem_range.mp hb)).mem_iff _).mp ha
          obtain ⟨i', hi', head', token', col', hcol', howns', heq⟩ :=
            ((h.writes hrep hlane hwork (List.mem_range.mp hb')).mem_iff _).mp ha'
          obtain ⟨rfl, rfl⟩ := howns.same_element howns' hcol hcol' heq
          exact hne (howns.batch_eq howns')

end PipelineTask.Shares

/-- The records of `ProcessPipelineTask`, whatever the chunk is. -/
theorem pipelineTask_writesShare (localRound : ℤ) (reuse : Bool) {taskId : ℤ}
    (hrep : 1 ≤ tiling.numRepeat) (hlane : lane < 2) (hc : taskId.tdiv tiling.hg = c)
    (hkv : taskId.tmod tiling.hg = kv) (hw : ¬ offsets.Wraps c) :
    WritesShare tiling offsets lane c kv 1
      ((pipelineTask tiling offsets taskId lane localRound reuse).records tiling) := by
  by_cases hin : offsets.InRange tiling.t c
  · exact (pipelineTask_shares hrep hlane hc hkv hin).writesShare hrep hlane
  · have hnil : (pipelineTask tiling offsets taskId lane localRound reuse).records tiling = [] := by
      simp [PipelineTask.records, pipelineTask_idle hc hw hin]
    rw [hnil]
    refine ⟨by simp, ?_, List.nodup_nil⟩
    intro i hi b head token howns
    obtain rfl : i = 0 := by omega
    exact absurd howns.inRange hin

section Pair

variable (hrep : tiling.numRepeat = 3) (hlane : lane < 2)

include hrep hlane in
/-- With three heads the first lane has one of them and the second lane two. -/
theorem laneFirst_three : laneFirst tiling.numRepeat lane = lane ∧
    laneLast tiling.numRepeat lane = 2 * lane + 1 := by
  rw [hrep]
  obtain rfl | rfl : lane = 0 ∨ lane = 1 := by omega
  · exact ⟨rfl, rfl⟩
  · exact ⟨rfl, rfl⟩

include hrep hlane in
/-- A lane's heads of two adjacent full chunks are one batch. -/
theorem queueDelayedChunkPairOutput_writes (kv : ℕ) (hin : offsets.InRange tiling.t c)
    (hin' : offsets.InRange tiling.t (c + 1 : ℕ))
    (hlen : offsets.getValue (c + 1) - offsets.getValue c = 64)
    (hlen' : offsets.getValue (c + 2) - offsets.getValue (c + 1) = 64) :
    WritesBatch tiling offsets lane c kv 0 2 (queueDelayedChunkPairOutput tiling.t
      ((kv * 3 + lane : ℕ) : ℤ) (offsets.getValue c) (lane + 1 : ℕ)) := by
  obtain ⟨hfirst, hlast⟩ := laneFirst_three hrep hlane
  have hfuse : ((c + 1 : ℕ) : ℤ) + 1 = c + 2 := by push_cast; ring
  have hmid : ((c + 1 : ℕ) : ℤ) = c + 1 := by push_cast; rfl
  have hno : ¬ tiling.numRepeat < AIVS_PER_AIC := by
    rw [hrep, AIVS_PER_AIC]
    omega
  constructor
  · refine OutputRecord.nodup_targets (queueDelayedChunkPairOutput_pitched _ _ _ _) ?_
    have h0 := hin.nonneg
    have hend := hin'.end_le
    have helems : (queueDelayedChunkPairOutput tiling.t ((kv * 3 + lane : ℕ) : ℤ)
        (offsets.getValue c) (lane + 1 : ℕ)).headElems = 8192 := rfl
    rw [hfuse] at hend
    rw [helems, ROW_ELEMS]
    omega
  · intro a
    rw [mem_elements (queueDelayedChunkPairOutput_placed tiling.t ((kv * 3 + lane : ℕ) : ℤ)
      (offsets.getValue c) (by omega : lane + 1 = 1 ∨ lane + 1 = 2))]
    constructor
    · rintro ⟨head, token, col, hcol, hhead, htoken, ha⟩
      have hbatch : kv * tiling.numRepeat + laneFirst tiling.numRepeat lane +
          GATE_HEAD_BATCH * (0 : ℕ) ≤ head ∧
          head < kv * tiling.numRepeat + laneFirst tiling.numRepeat lane +
            GATE_HEAD_BATCH * ((0 : ℕ) + 1) ∧
          head < kv * tiling.numRepeat + laneLast tiling.numRepeat lane := by
        rw [hfirst, hlast, hrep, GATE_HEAD_BATCH]
        omega
      obtain ⟨hle, hlt, hend⟩ := hbatch
      by_cases hchunk : token < offsets.getValue (c + 1)
      · exact ⟨0, by decide, head, token, col, hcol,
          ⟨hin, htoken.1, hchunk, hle, hlt, hend, fun h => absurd h hno⟩, ha⟩
      · refine ⟨1, by decide, head, token, col, hcol,
          ⟨hin', ?_, ?_, hle, hlt, hend, fun h => absurd h hno⟩, ha⟩
        · rw [hmid]
          omega
        · rw [hfuse]
          omega
    · rintro ⟨i, hi, head, token, col, hcol, howns, ha⟩
      have hle := howns.first_le
      have hlt := howns.lt_last
      have hstart := howns.start_le
      have hend := howns.lt_end
      rw [hfirst, hrep] at hle
      rw [hlast, hrep] at hlt
      refine ⟨head, token, col, hcol, by omega, ?_, ha⟩
      obtain rfl | rfl : i = 0 ∨ i = 1 := by omega
      · rw [Nat.add_zero] at hstart hend
        omega
      · rw [hmid] at hstart
        rw [hfuse] at hend
        omega

include hrep hlane in
/-- **The record of `ProcessAdjacentFullChunkR34`.** -/
theorem adjacentFullChunk_writesShare (kv : ℕ) (localRound localTaskCount : ℤ)
    (hin : offsets.InRange tiling.t c) (hin' : offsets.InRange tiling.t (c + 1 : ℕ))
    (hlen : offsets.getValue (c + 1) - offsets.getValue c = 64)
    (hlen' : offsets.getValue (c + 2) - offsets.getValue (c + 1) = 64) :
    WritesShare tiling offsets lane c kv 2 [(adjacentFullChunk offsets (lane == 1) c
      (kv * 3 + lane : ℕ) localRound localTaskCount).record tiling.t] := by
  have hrecord : (adjacentFullChunk offsets (lane == 1) c (kv * 3 + lane : ℕ) localRound
      localTaskCount).record tiling.t = queueDelayedChunkPairOutput tiling.t
        ((kv * 3 + lane : ℕ) : ℤ) (offsets.getValue c) (lane + 1 : ℕ) := by
    obtain rfl | rfl : lane = 0 ∨ lane = 1 := by omega
    · rfl
    · rfl
  have hbatch := queueDelayedChunkPairOutput_writes hrep hlane kv hin hin' hlen hlen'
  rw [hrecord]
  refine ⟨?_, ?_, ?_⟩
  · intro output hout
    rw [List.mem_singleton.mp hout]
    exact ⟨0, hbatch⟩
  · intro i hi b head token howns
    -- the lane has at most two heads of the KV head
    have hle := howns.batch_le
    have hlt := howns.lt_last
    obtain ⟨hfirst, hlast⟩ := laneFirst_three hrep hlane
    rw [hfirst, hrep, GATE_HEAD_BATCH] at hle
    rw [hlast, hrep] at hlt
    obtain rfl : b = 0 := by omega
    exact ⟨_, List.mem_singleton_self _, hbatch⟩
  · simpa using hbatch.once

end Pair

end VectorStage

end ChunkScaledDotKkt
