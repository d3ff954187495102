import ChunkScaledDotKkt.Vector.HeadFactor
import Mathlib.Tactic.Ring
import Mathlib.Tactic.Linarith

/-!
# The inputs of a batch

The prefetch of gate and beta, the zeroed tails and the load of the KKT rows give the
factor stage its inputs, whatever the lane's tensors held before.

## Main results

* `HeadBatch.prefetch_triple`, `HeadBatch.zeroTail_triple` — the rows of gate and beta,
  padded with zeros to 64 elements.
* `beginLoadKktSlot_triple` — the KKT rows, padded with zeros to 64 columns.
-/

namespace ChunkScaledDotKkt

open MachineInt Buffer VectorUnit VectorStage

variable {F : Type}

/-! ## The copies -/

/-- Elements of a chunk rounded up to whole blocks of its queue. -/
def QueueId.aligned (id : QueueId) (chunkLen : ℕ) : ℕ :=
  (chunkLen + (id.perBlock - 1)) / id.perBlock * id.perBlock

theorem QueueId.aligned_le (id : QueueId) {chunkLen : ℕ} (h : chunkLen ≤ 64) :
    id.aligned chunkLen ≤ 64 := by
  cases id <;> simp only [aligned, perBlock] <;> omega

theorem QueueId.le_aligned (id : QueueId) (chunkLen : ℕ) : chunkLen ≤ id.aligned chunkLen := by
  cases id <;> simp only [aligned, perBlock] <;> omega

/-- The descriptor of the batched copy: rows of `chunkLen` elements, `t` apart in GM and
64 apart in UB. -/
theorem gateOrBetaParams_spec (id : QueueId) {t : ℤ} {chunkLen batchHeads : ℕ}
    (ht : t < 1073741824) (hlen : chunkLen ≤ 64) (hle : (chunkLen : ℤ) ≤ t)
    (hheads : batchHeads ≤ 2) :
    let params := gateOrBetaParams id.perBlock t chunkLen batchHeads
    let size := 32 / id.perBlock
    params.blockCount = batchHeads ∧ params.blockLen / size = chunkLen ∧
      (params.blockLen + params.srcStride) / size = t.toNat ∧
      id.aligned chunkLen + params.dstStride * id.perBlock = 64 := by
  cases id <;> simp only [gateOrBetaParams, QueueId.perBlock, QueueId.aligned, u16, u32] <;>
    split <;> omega

theorem gateOrBetaPad_spec [Zero F] (id : QueueId) (chunkLen : ℕ) :
    let pad : DataCopyPadExtParams F := gateOrBetaPad id.perBlock chunkLen
    chunkLen + (if pad.isPad then pad.rightPadding else 0) = id.aligned chunkLen := by
  cases id <;> simp only [gateOrBetaPad, QueueId.perBlock, QueueId.aligned, u8] <;>
    by_cases hfull : chunkLen = 64 <;> simp [hfull] <;> omega

/-- A row of a head in `UB`, up to its padding. -/
theorem copyGateOrBeta_apply [Zero F] (id : QueueId) {t : ℤ} {chunkLen batchHeads : ℕ}
    {src dst : ℕ → F} (ht : t < 1073741824) (hlen : chunkLen ≤ 64) (hle : (chunkLen : ℤ) ≤ t)
    (hheads : batchHeads ≤ 2) {h j : ℕ} (hh : h < batchHeads) (hj : j < id.aligned chunkLen) :
    copyGateOrBeta id.perBlock t chunkLen batchHeads src dst (h * 64 + j) =
      if j < chunkLen then src (h * t.toNat + j) else 0 := by
  have hal := id.aligned_le hlen
  by_cases hone : chunkLen = 64 ∧ batchHeads = 1
  · obtain ⟨rfl, rfl⟩ := hone
    have hh0 : h = 0 := by omega
    subst hh0
    have hj64 : j < 64 := by omega
    simp [copyGateOrBeta, hj64]
  · obtain ⟨hcount, hblock, hsrc, hdst⟩ := gateOrBetaParams_spec id ht hlen hle hheads
    have hpad := gateOrBetaPad_spec (F := F) id chunkLen
    simp only at hcount hblock hsrc hdst hpad
    have hpitch : paddedLen id.perBlock (id.aligned chunkLen) = id.aligned chunkLen := by
      cases id <;> simp only [paddedLen, QueueId.aligned, QueueId.perBlock] <;> omega
    rw [copyGateOrBeta, if_neg hone, dataCopyPad_apply rfl hblock rfl (by omega)
      (by rw [hpad, hpitch, hdst]) (by omega), hcount, hsrc, hpad, if_pos ⟨hh, hj⟩]
    rfl

/-- A row of the KKT tile in `UB`, padding included. -/
theorem copyKkt_apply [Zero F] {chunkLen rowCount : ℕ} {src dst : ℕ → F} (hlen : chunkLen ≤ 64)
    (hrows : rowCount ≤ 64) {r j : ℕ} (hr : r < rowCount) (hj : j < 64)
    (hdst : chunkLen ≠ 64 → dst (r * 64 + j) = 0) :
    VectorStage.copyKkt chunkLen rowCount src dst (r * 64 + j) =
      if j < chunkLen then src (r * 64 + j) else 0 := by
  by_cases hfull : chunkLen = 64
  · subst hfull
    have hlt : r * 64 + j < rowCount * 64 := by omega
    have hn : (u32 (rowCount * 64 : ℕ)).toNat = rowCount * 64 := by
      unfold u32
      omega
    rw [VectorStage.copyKkt, if_pos rfl, dataCopy_apply, hn, if_pos hlt, if_pos hj]
  · have hpad : chunkLen + (u8 ((chunkLen + 7) / 8 * 8 - chunkLen : ℕ)).toNat =
        (chunkLen + 7) / 8 * 8 := by
      unfold u8
      omega
    have hblock : (u32 (chunkLen * 4 : ℕ)).toNat / (32 / 8) = chunkLen := by
      unfold u32
      omega
    have hpitch : paddedLen 8 ((chunkLen + 7) / 8 * 8) +
        (u32 ((64 - (chunkLen + 7) / 8 * 8) / 8 : ℕ)).toNat * 8 = 64 := by
      unfold paddedLen u32
      omega
    have hsrc : ((u32 (chunkLen * 4 : ℕ)).toNat + (u32 ((64 - chunkLen) * 4 : ℕ)).toNat) /
        (32 / 8) = 64 := by
      unfold u32
      omega
    have hcount : (u16 rowCount).toNat = rowCount := by
      unfold u16
      omega
    rw [VectorStage.copyKkt, if_neg hfull]
    rw [dataCopyPad_apply rfl hblock rfl (by simp only [if_true]; omega)
      (by simp only [if_true]; rw [hpad, hpitch]) hj]
    simp only [if_true]
    rw [hpad, hsrc, hcount]
    by_cases hpadded : j < (chunkLen + 7) / 8 * 8
    · rw [if_pos ⟨hr, hpadded⟩]
    · have hcol : ¬ j < chunkLen := by omega
      rw [if_neg fun h => hpadded h.2, if_neg hcol, hdst hfull]

/-! ## The inputs of a batch -/

/-- One or two heads of a chunk of 1 to 64 tokens inside `[0, t)`. -/
structure HeadBatch (t : ℤ) where
  firstHeadId : ℤ
  start : ℤ
  chunkLen : ℕ
  heads : ℕ
  t_lt : t < 1073741824
  firstHead_nonneg : 0 ≤ firstHeadId
  start_nonneg : 0 ≤ start
  chunkLen_le : chunkLen ≤ 64
  end_le : start + chunkLen ≤ t
  heads_le : heads ≤ 2

/-- The address of a token of head `h` in the source of the copy. -/
theorem HeadBatch.src_index {t : ℤ} (batch : HeadBatch t) {h : ℕ} (hh : h < 2) (j : ℕ) :
    (batch.firstHeadId * t + batch.start).toNat + (h * t.toNat + j) =
      ((batch.firstHeadId + h) * t + batch.start + j).toNat := by
  have hend := batch.end_le
  have hs := batch.start_nonneg
  have hbase : 0 ≤ batch.firstHeadId * t := mul_nonneg batch.firstHead_nonneg (by omega)
  have hmul : (batch.firstHeadId + h) * t = batch.firstHeadId * t + h * t := by ring
  rw [hmul]
  obtain rfl | rfl : h = 0 ∨ h = 1 := by omega
  · omega
  · push_cast
    omega

/-- Gate or beta of a token of a head. -/
def QueueId.value (id : QueueId) (env : LaneEnv F) (headId start : ℤ) (i : ℕ) : F :=
  id.gm env (headId * env.t + start + i).toNat

/-- A head's row with its padding. -/
def QueueId.padded [Zero F] (id : QueueId) (env : LaneEnv F) (headId start : ℤ)
    (chunkLen j : ℕ) : F :=
  if j < chunkLen then id.value env headId start j else 0

section

variable [CommRing F] [LinearOrder F] {env : LaneEnv F}

/-! ## Passing through a queue -/

section

variable {id : QueueId} {off n : ℕ} {val : ℕ → F}

/-- What a region of the filled tensor holds reaches the enqueued one. -/
theorem prefetch_passes {firstHeadId start : ℤ} {chunkLen batchHeads : ℕ}
    (hcopy : ∀ m, (Fact.tensor ⟨id.buf .fresh, off⟩ n val).Holds
      ((LaneOp.copyGateOrBeta id firstHeadId start chunkLen batchHeads).act env m)) :
    (laneLogic env).Triple [] (prefetchGateAndBetaBatch firstHeadId start chunkLen batchHeads)
      [.tensor ⟨id.buf .queued, off⟩ n val] := by
  have hfill : (laneLogic env).Triple []
      [.copyGateOrBeta id firstHeadId start chunkLen batchHeads]
      [.tensor ⟨id.buf .fresh, off⟩ n val] :=
    .step (fun m _ => hcopy m) (by simp) (by simp)
  have henQue : (laneLogic env).Triple [.tensor ⟨id.buf .fresh, off⟩ n val] [.queue id .enQue]
      [.tensor ⟨id.buf .queued, off⟩ n val] := by
    refine .step (fun m hm => ?_) (List.nil_subset _) (by simp)
    intro j hj
    rw [← hm _ (List.mem_singleton_self _) j hj]
    exact congrFun (Function.update_self ..) _
  rw [prefetchGateAndBetaBatch]
  refine .skip (by simp) (.skip (by simp) ?_)
  cases id with
  | gate =>
      refine .cons hfill (.skip ?_ (.cons henQue (.frame ?_)))
      · simp [QueueId.buf]
      · simp [QueueId.buf]
  | beta =>
      refine .skip (by simp) (.cons hfill (.skip ?_ henQue))
      simp [QueueId.buf]

/-- And from there the one in use. -/
theorem deQue_passes :
    (laneLogic env).Triple [.tensor ⟨id.buf .queued, off⟩ n val]
      [.queue .gate .deQue, .queue .beta .deQue] [.tensor ⟨id.buf .current, off⟩ n val] := by
  have hdeQue : (laneLogic env).Triple [.tensor ⟨id.buf .queued, off⟩ n val] [.queue id .deQue]
      [.tensor ⟨id.buf .current, off⟩ n val] := by
    refine .step (fun m hm => ?_) (List.nil_subset _) (by simp)
    intro j hj
    rw [← hm _ (List.mem_singleton_self _) j hj]
    exact congrFun (Function.update_self ..) _
  cases id with
  | gate =>
      refine .cons hdeQue (.frame ?_)
      simp [QueueId.buf]
  | beta =>
      refine .skip ?_ hdeQue
      simp [QueueId.buf]

/-- The load of the KKT rows touches no tensor of a queue. -/
theorem beginLoadKktSlot_keeps {slot : QueueSlot}
    (groupId slotId chunkLen rowStart rowCount : ℕ) :
    ∀ c ∈ beginLoadKktSlot groupId slotId chunkLen rowStart rowCount,
      (laneLogic env).KeepsAll [.tensor ⟨id.buf slot, off⟩ n val] c := by
  intro c hc
  rw [beginLoadKktSlot] at hc
  by_cases hfull : chunkLen = 64
  · simp [hfull] at hc
    rcases hc with rfl | rfl | rfl | rfl <;> cases id <;> simp [QueueId.buf]
  · simp [hfull] at hc
    rcases hc with rfl | rfl | rfl | rfl | rfl <;> cases id <;> simp [QueueId.buf]

end

/-! ## The rows of a batch -/

namespace HeadBatch

variable (batch : HeadBatch env.t)

/-- The first `n` elements of the row of head `h` in a tensor of the queue. -/
def rowFact (id : QueueId) (slot : QueueSlot) (h n : ℕ) : Fact F :=
  .tensor ⟨id.buf slot, h * 64⟩ n
    (id.padded env (batch.firstHeadId + h) batch.start batch.chunkLen)

/-- A row as the copy leaves it. -/
def copied (id : QueueId) (slot : QueueSlot) (h : ℕ) : Fact F :=
  batch.rowFact id slot h (id.aligned batch.chunkLen)

variable {batch} {h : ℕ}

theorem copy_holds (id : QueueId) (hh : h < batch.heads) (m : LaneMemory F) :
    (batch.copied id .fresh h).Holds
      ((LaneOp.copyGateOrBeta id batch.firstHeadId batch.start batch.chunkLen batch.heads).act
        env m) := by
  have hend := batch.end_le
  have hs := batch.start_nonneg
  have h2 := batch.heads_le
  intro j hj
  have hw : ((LaneOp.copyGateOrBeta id batch.firstHeadId batch.start batch.chunkLen
      batch.heads).act env m).f32 (id.buf .fresh) (0 + (h * 64 + j)) =
        VectorStage.copyGateOrBeta id.perBlock env.t batch.chunkLen batch.heads
          (slice (batch.firstHeadId * env.t + batch.start).toNat (id.gm env)) _ (h * 64 + j) :=
    LaneMemory.write_f32_add
  rw [copyGateOrBeta_apply id batch.t_lt batch.chunkLen_le (by omega) h2 hh hj, Nat.zero_add,
    slice, batch.src_index (by omega)] at hw
  exact hw

/-- **The prefetch** enqueues the rows of each head, whatever the tensors held. -/
theorem prefetch_triple (id : QueueId) (hh : h < batch.heads) :
    (laneLogic env).Triple []
      (prefetchGateAndBetaBatch batch.firstHeadId batch.start batch.chunkLen batch.heads)
      [batch.copied id .queued h] :=
  prefetch_passes (copy_holds id hh)

/-- Dequeueing hands the rows over. -/
theorem deQue_triple (id : QueueId) :
    (laneLogic env).Triple [batch.copied id .queued h] [.queue .gate .deQue, .queue .beta .deQue]
      [batch.copied id .current h] :=
  deQue_passes

/-! ## The tails -/

/-- A row with its tail zeroed. -/
def row (id : QueueId) (h : ℕ) : Fact F := batch.rowFact id .current h 64

/-- The zeroing of one tail. -/
def tailOp (chunkLen : ℕ) (id : QueueId) (h : ℕ) : List LaneOp :=
  if id.aligned chunkLen < 64 then
    [.vector (.duplicateZero ⟨id.buf .current, h * 64 + id.aligned chunkLen⟩
      (64 - id.aligned chunkLen))]
  else []

/-- The tails of one head. -/
def tailOps (chunkLen h : ℕ) : List LaneOp := tailOp chunkLen .gate h ++ tailOp chunkLen .beta h

theorem zeroTail_eq (chunkLen heads : ℕ) : zeroTailGateAndBetaBatchSuffix chunkLen heads =
    (List.range heads).flatMap (tailOps chunkLen) ++
      (if QueueId.gate.aligned chunkLen < 64 ∨ QueueId.beta.aligned chunkLen < 64 then
        [.pipeBarrierV] else []) := rfl

/-- A tail of another row leaves this row alone. -/
theorem tailOp_keeps {id id' : QueueId} {h h' n : ℕ} (hne : id' = id → h' ≠ h) (hn : n ≤ 64) :
    ∀ c ∈ tailOp batch.chunkLen id' h',
      (laneLogic env).KeepsAll [batch.rowFact id .current h n] c := by
  have hal := id'.aligned_le batch.chunkLen_le
  intro c hc
  by_cases hlt : id'.aligned batch.chunkLen < 64
  · rw [tailOp, if_pos hlt, List.mem_singleton] at hc
    subst hc
    by_cases hid : id' = id
    · have := hne hid
      simp [rowFact]
      omega
    · cases id <;> cases id' <;> simp [rowFact, QueueId.buf] at hid ⊢
  · rw [tailOp, if_neg hlt] at hc
    cases hc

theorem tailOps_keeps {id : QueueId} {h h' n : ℕ} (hne : h' ≠ h) (hn : n ≤ 64) :
    ∀ c ∈ tailOps batch.chunkLen h',
      (laneLogic env).KeepsAll [batch.rowFact id .current h n] c := by
  intro c hc
  rcases List.mem_append.mp hc with hc | hc
  · exact tailOp_keeps (fun _ => hne) hn c hc
  · exact tailOp_keeps (fun _ => hne) hn c hc

/-- The zeroed tail completes the copied part of the row. -/
theorem tailOp_triple (id : QueueId) :
    (laneLogic env).Triple [batch.copied id .current h] (tailOp batch.chunkLen id h)
      [batch.row id h] := by
  have hal := id.aligned_le batch.chunkLen_le
  have hle := id.le_aligned batch.chunkLen
  by_cases hlt : id.aligned batch.chunkLen < 64
  · rw [tailOp, if_pos hlt]
    refine .step (fun m hm => ?_) (List.nil_subset _) (by simp)
    intro j hj
    by_cases hcopied : j < id.aligned batch.chunkLen
    · have hkeep := (laneLogic env).sound (c := .vector (.duplicateZero
        ⟨id.buf .current, h * 64 + id.aligned batch.chunkLen⟩ (64 - id.aligned batch.chunkLen)))
        (by simp [copied, rowFact]) (hm (batch.copied id .current h) (by simp))
      exact hkeep j hcopied
    · have hzero : (Fact.tensor ⟨id.buf .current, h * 64 + id.aligned batch.chunkLen⟩
          (64 - id.aligned batch.chunkLen) fun _ => (0 : F)).Holds
          (VectorInstr.act env.exp (.duplicateZero ⟨id.buf .current,
            h * 64 + id.aligned batch.chunkLen⟩ (64 - id.aligned batch.chunkLen)) m) :=
        VectorInstr.duplicateZero_holds (d := 0) rfl (by omega)
      have hj0 := hzero (j - id.aligned batch.chunkLen) (by omega)
      have hcol : ¬ j < batch.chunkLen := by omega
      have haddr : h * 64 + id.aligned batch.chunkLen + (j - id.aligned batch.chunkLen) =
          h * 64 + j := by omega
      simp only [haddr] at hj0
      simp only [QueueId.padded, hcol, if_false]
      exact hj0
  · have hfull : id.aligned batch.chunkLen = 64 := by omega
    rw [tailOp, if_neg hlt, row, ← hfull]
    exact .nil (List.Subset.refl _)

/-- **The zeroed suffix** of every row, whatever the tensors held beyond the copies. -/
theorem zeroTail_triple (id : QueueId) (hh : h < batch.heads) :
    (laneLogic env).Triple [batch.copied id .current h]
      (zeroTailGateAndBetaBatchSuffix batch.chunkLen batch.heads) [batch.row id h] := by
  have hal := id.aligned_le batch.chunkLen_le
  have hown : (laneLogic env).Triple [batch.copied id .current h] (tailOps batch.chunkLen h)
      [batch.row id h] := by
    cases id with
    | gate =>
        exact .append (tailOp_triple .gate) (.frame (tailOp_keeps (by simp) (Nat.le_refl 64)))
    | beta =>
        exact .append (.frame (tailOp_keeps (by simp) hal)) (tailOp_triple .beta)
  obtain ⟨l, l', hsplit⟩ := List.append_of_mem (List.mem_range.mpr hh)
  have hnodup := List.nodup_range (n := batch.heads)
  rw [hsplit, List.nodup_append] at hnodup
  rw [zeroTail_eq, hsplit, List.flatMap_append, List.flatMap_cons]
  refine .append (.append (.frame ?_) (.append hown (.frame ?_))) (.frame ?_)
  · intro c hc
    obtain ⟨h', hmem, hc⟩ := List.mem_flatMap.mp hc
    exact tailOps_keeps (hnodup.2.2 h' hmem h (by simp)) hal c hc
  · intro c hc
    obtain ⟨h', hmem, hc⟩ := List.mem_flatMap.mp hc
    have hne : h' ≠ h := fun heq => (List.nodup_cons.mp hnodup.2.1).1 (heq ▸ hmem)
    exact tailOps_keeps hne (Nat.le_refl 64) c hc
  · intro c hc
    split at hc
    · rw [List.mem_singleton] at hc
      subst hc
      exact fun _ _ => trivial
    · cases hc

end HeadBatch

/-! ## The KKT rows -/

/-- The Gram tile in a workspace slot. -/
def LaneEnv.gram (env : LaneEnv F) (groupId slotId i j : ℕ) : F :=
  env.kktWorkspace (PackedGramMmadCubeStage.slotOffset groupId slotId + (i * 64 + j))

/-- The rows of a lane, with zero columns from `chunkLen` on. -/
def kktRows (env : LaneEnv F) (groupId slotId chunkLen rowStart rowCount : ℕ) : Fact F :=
  .tensor ⟨.kkt, 0⟩ (rowCount * 64) fun a =>
    if a % 64 < chunkLen then env.gram groupId slotId (rowStart + a / 64) (a % 64) else 0

variable {groupId slotId chunkLen rowStart rowCount : ℕ}

/-- The zeroed tails leave the KKT rows alone. -/
theorem zeroTail_keeps_kktRows (len heads : ℕ) :
    ∀ c ∈ zeroTailGateAndBetaBatchSuffix len heads,
      (laneLogic env).KeepsAll [kktRows env groupId slotId chunkLen rowStart rowCount] c := by
  have htail : ∀ id h, ∀ c ∈ HeadBatch.tailOp len id h,
      (laneLogic env).KeepsAll [kktRows env groupId slotId chunkLen rowStart rowCount] c := by
    intro id h c hc
    rw [HeadBatch.tailOp] at hc
    split at hc
    · rw [List.mem_singleton] at hc
      subst hc
      cases id <;> simp [kktRows, QueueId.buf]
    · cases hc
  intro c hc
  rw [HeadBatch.zeroTail_eq] at hc
  rcases List.mem_append.mp hc with hc | hc
  · obtain ⟨h, -, hc⟩ := List.mem_flatMap.mp hc
    rcases List.mem_append.mp hc with hc | hc
    · exact htail .gate h c hc
    · exact htail .beta h c hc
  · split at hc
    · rw [List.mem_singleton] at hc
      subst hc
      exact fun _ _ => trivial
    · cases hc

theorem copyKkt_holds (hlen : chunkLen ≤ 64) (hrows : rowCount ≤ 64) {m : LaneMemory F}
    (hzero : chunkLen ≠ 64 →
      (Fact.tensor ⟨.kkt, 0⟩ (rowCount * 64) fun _ => (0 : F)).Holds m) :
    (kktRows env groupId slotId chunkLen rowStart rowCount).Holds
      ((LaneOp.copyKkt groupId slotId chunkLen rowStart rowCount).act env m) := by
  intro a ha
  have hdst : chunkLen ≠ 64 → m.read ⟨.kkt, 0⟩ (a / 64 * 64 + a % 64) = 0 := by
    intro hne
    exact hzero hne (a / 64 * 64 + a % 64) (by omega)
  have hw : ((LaneOp.copyKkt groupId slotId chunkLen rowStart rowCount).act env m).f32 .kkt
      (0 + (a / 64 * 64 + a % 64)) =
        VectorStage.copyKkt chunkLen rowCount (slice (PackedGramMmadCubeStage.slotOffset groupId
          slotId + rowStart * 64) env.kktWorkspace) (m.read ⟨.kkt, 0⟩) (a / 64 * 64 + a % 64) :=
    LaneMemory.write_f32_add
  have hrow : a / 64 * 64 + a % 64 = a := by omega
  have haddr : rowStart * 64 + a = (rowStart + a / 64) * 64 + a % 64 := by omega
  rw [copyKkt_apply hlen hrows (by omega) (by omega) hdst, hrow, slice, Nat.add_assoc, haddr] at hw
  exact hw

/-- **The load of the KKT rows**, whatever the tile held. -/
theorem beginLoadKktSlot_triple (hlen : chunkLen ≤ 64) (hrows : rowCount ≤ 64) :
    (laneLogic env).Triple [] (beginLoadKktSlot groupId slotId chunkLen rowStart rowCount)
      [kktRows env groupId slotId chunkLen rowStart rowCount] := by
  let zero : Fact F := .tensor ⟨.kkt, 0⟩ (rowCount * 64) fun _ => 0
  have hcopy : ∀ Γ, (∀ m, (laneLogic env).Sat Γ m → chunkLen ≠ 64 → zero.Holds m) →
      (laneLogic env).Triple Γ [.copyKkt groupId slotId chunkLen rowStart rowCount]
        [kktRows env groupId slotId chunkLen rowStart rowCount] := by
    intro Γ hΓ
    exact .step (fun m hm => copyKkt_holds hlen hrows (hΓ m hm)) (List.nil_subset Γ) (by simp)
  rw [beginLoadKktSlot]
  by_cases hfull : chunkLen = 64
  · rw [if_neg (not_not.mpr hfull)]
    refine .skip (by simp) (.skip (by simp) (.cons (hcopy [] ?_) (.frame (by simp))))
    intro m _ hne
    exact absurd hfull hne
  · rw [if_pos hfull]
    have hzero : (laneLogic env).Triple []
        [.vector (.duplicateZero ⟨.kkt, 0⟩ (rowCount * 64))] [zero] :=
      instr_triple (fun m _ => VectorInstr.duplicateZero_holds (d := 0) rfl (by omega)) (by simp)
        (by simp)
    refine .append hzero (.skip (by simp) (.skip (by simp) (.cons (hcopy [zero] ?_) ?_)))
    · intro m hm _
      exact hm zero (by simp)
    · exact .frame (by simp)

end

end ChunkScaledDotKkt
