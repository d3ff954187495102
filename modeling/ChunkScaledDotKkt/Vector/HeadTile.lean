import ChunkScaledDotKkt.Vector.HeadInputs
import Mathlib.Analysis.Complex.Exponential

/-!
# The tile of a head

Prefetch, KKT load, factor stage and final multiply of one batch, run from arbitrary
contents of the lane's tensors, leave the operator's formula in the output.

## Main results

* `head_tile` — the output of a single head and of both heads of a pair, and their
  equality.
-/

namespace ChunkScaledDotKkt

open MachineInt VectorStage

variable {F : Type}

/-! ## The commands of a batch -/

namespace VectorStage

/-- The loads of a batch, in the order of a task's first batch. -/
def inputOps (groupId slotId : ℕ) (firstHeadId start : ℤ)
    (chunkLen rowStart rowCount batchHeads : ℕ) : List LaneOp :=
  prefetchGateAndBetaBatch firstHeadId start chunkLen batchHeads ++
  (beginLoadKktSlot groupId slotId chunkLen rowStart rowCount ++
  ([.queue .gate .deQue, .queue .beta .deQue] ++
  (if chunkLen ≠ 64 then zeroTailGateAndBetaBatchSuffix chunkLen batchHeads else [])))

/-- A batch of one head, up to its final multiply. -/
def headOps (groupId slotId : ℕ) (headId start : ℤ) (chunkLen rowStart rowCount out : ℕ) :
    List LaneOp :=
  inputOps groupId slotId headId start chunkLen rowStart rowCount 1 ++
  (prepareHeadFactor chunkLen rowStart rowCount out ++
  [.vector (.mul ⟨.output, out⟩ ⟨.kkt, 0⟩ ⟨.output, out⟩ (rowCount * 64))])

/-- A batch of two heads, up to its final multiplies. -/
def headPairOps (groupId slotId : ℕ) (firstHeadId start : ℤ) (chunkLen rowCount out0 out1 : ℕ) :
    List LaneOp :=
  inputOps groupId slotId firstHeadId start chunkLen 0 rowCount 2 ++
  (prepareHeadPairFactor chunkLen rowCount out0 out1 ++
  [.vector (.mul ⟨.output, out0⟩ ⟨.kkt, 0⟩ ⟨.output, out0⟩ (rowCount * 64)),
   .vector (.mul ⟨.output, out1⟩ ⟨.kkt, 0⟩ ⟨.output, out1⟩ (rowCount * 64))])

end VectorStage

/-- The operator's formula for row `i` and column `j` of a chunk. -/
def LaneEnv.formula [CommRing F] [LinearOrder F] (env : LaneEnv F) (groupId slotId : ℕ)
    (headId start : ℤ) (chunkLen i j : ℕ) : F :=
  let g := QueueId.gate.value env headId start
  let beta := QueueId.beta.value env headId start
  if j < chunkLen ∧ g i < g j then beta i * env.exp (g i - g j) * env.gram groupId slotId i j
  else 0

/-! ## A batch's head -/

section

variable [CommRing F] [LinearOrder F] {env : LaneEnv F}

namespace HeadBatch

variable (batch : HeadBatch env.t) (groupId slotId rowStart rowCount h out : ℕ)

/-- Head `h` of the batch over the given rows of a slot. -/
def tile (hrows : rowStart + rowCount ≤ 64) : HeadTile F where
  paired := batch.heads = 2
  head := h
  out := out
  chunkLen := batch.chunkLen
  rowStart := rowStart
  rowCount := rowCount
  g := QueueId.gate.padded env (batch.firstHeadId + h) batch.start batch.chunkLen
  beta := QueueId.beta.padded env (batch.firstHeadId + h) batch.start batch.chunkLen
  kkt a := if a % 64 < batch.chunkLen then
    env.gram groupId slotId (rowStart + a / 64) (a % 64) else 0
  chunkLen_le := batch.chunkLen_le
  rows_le := hrows

variable {batch groupId slotId rowStart rowCount h out}

/-- **The loads** give the factor stage its inputs. -/
theorem inputs_triple (hrows : rowStart + rowCount ≤ 64) (hh : h < batch.heads) :
    (laneLogic env).Triple []
      (inputOps groupId slotId batch.firstHeadId batch.start batch.chunkLen rowStart rowCount
        batch.heads)
      (batch.tile groupId slotId rowStart rowCount h out hrows).inputs := by
  have hkkt : (laneLogic env).Triple []
      (inputOps groupId slotId batch.firstHeadId batch.start batch.chunkLen rowStart rowCount
        batch.heads) [kktRows env groupId slotId batch.chunkLen rowStart rowCount] := by
    refine .append .trivial (.append (beginLoadKktSlot_triple batch.chunkLen_le (by omega))
      (.append (.frame (by simp [kktRows, QueueId.buf])) (.frame ?_)))
    intro c hc
    split at hc
    · exact zeroTail_keeps_kktRows _ _ c hc
    · cases hc
  have hrow : ∀ id : QueueId, (laneLogic env).Triple []
      (inputOps groupId slotId batch.firstHeadId batch.start batch.chunkLen rowStart rowCount
        batch.heads) [batch.row id h] := by
    intro id
    refine .append (prefetch_triple id hh) (.append (.frame (beginLoadKktSlot_keeps _ _ _ _ _))
      (.append (deQue_triple id) ?_))
    by_cases hfull : batch.chunkLen = 64
    · rw [if_neg (not_not.mpr hfull)]
      have hal : id.aligned batch.chunkLen = 64 := by
        have := id.le_aligned batch.chunkLen
        have := id.aligned_le batch.chunkLen_le
        omega
      rw [row, ← hal]
      exact .nil (List.Subset.refl _)
    · rw [if_pos hfull]
      exact zeroTail_triple id hh
  exact ((hrow .gate).and (hrow .beta)).and hkkt

/-- The single head's output holds its result. -/
theorem headOps_triple (groupId slotId out : ℕ) (hrows : rowStart + rowCount ≤ 64)
    (hone : batch.heads = 1) :
    (laneLogic env).Triple []
      (headOps groupId slotId batch.firstHeadId batch.start batch.chunkLen rowStart rowCount out)
      [(batch.tile groupId slotId rowStart rowCount 0 out hrows).resultFact env.exp] := by
  let x := batch.tile groupId slotId rowStart rowCount 0 out hrows
  have hp : x.paired = false := decide_eq_false (by omega)
  have hin : (laneLogic env).Triple [] _ x.inputs := inputs_triple hrows (by omega)
  rw [hone] at hin
  have hfactor := HeadTile.prepareHeadFactor_triple env hp rfl
  exact (hin.append (hfactor.append (x.result_step env))).weaken (List.Subset.refl _) (by simp [x])

/-- The outputs of a pair hold the results of its two heads. -/
theorem headPairOps_triple (groupId slotId : ℕ) {out0 out1 : ℕ} (hrows : 0 + rowCount ≤ 64)
    (htwo : batch.heads = 2) (hout : out0 + 4096 ≤ out1 ∨ out1 + 4096 ≤ out0) :
    (laneLogic env).Triple []
      (headPairOps groupId slotId batch.firstHeadId batch.start batch.chunkLen rowCount out0 out1)
      [(batch.tile groupId slotId 0 rowCount 0 out0 hrows).resultFact env.exp,
       (batch.tile groupId slotId 0 rowCount 1 out1 hrows).resultFact env.exp] := by
  let x := batch.tile groupId slotId 0 rowCount 0 out0 hrows
  let y := batch.tile groupId slotId 0 rowCount 1 out1 hrows
  have hx : x.paired = true := decide_eq_true htwo
  have hy : y.paired = true := decide_eq_true htwo
  have hinx : (laneLogic env).Triple [] _ x.inputs := inputs_triple hrows (by omega)
  have hiny : (laneLogic env).Triple [] _ y.inputs := inputs_triple hrows (by omega)
  rw [htwo] at hinx hiny
  have hfirst := HeadTile.prepareHeadPairFactor_first env hx rfl rfl hout
  have hsecond := HeadTile.prepareHeadPairFactor_second env hy rfl rfl hout.symm
  have hxres : (laneLogic env).Triple [] (headPairOps groupId slotId batch.firstHeadId batch.start
      batch.chunkLen rowCount out0 out1) (x.resultFact env.exp :: x.inputs) := by
    refine hinx.append (hfirst.append (.cons (x.result_step env) (.skip ?_ (.nil ?_))))
    · exact HeadTile.otherResult_keeps hout _
    · exact List.Subset.refl _
  have hyres : (laneLogic env).Triple [] (headPairOps groupId slotId batch.firstHeadId batch.start
      batch.chunkLen rowCount out0 out1) (y.resultFact env.exp :: y.inputs) := by
    exact hiny.append (hsecond.append (.skip (HeadTile.otherResult_keeps hout.symm _)
      (y.result_step env)))
  exact (hxres.and hyres).weaken (List.Subset.refl _) (by simp [x, y])

/-- A head's output, element by element. -/
theorem output_eq (hexp : ∀ a b, env.exp a * env.exp (-b) = env.exp (a - b))
    (hrows : rowStart + rowCount ≤ 64) (hin : rowStart + rowCount ≤ batch.chunkLen)
    {m : LaneMemory F}
    (hres : ((batch.tile groupId slotId rowStart rowCount h out hrows).resultFact env.exp).Holds m)
    {r j : ℕ} (hr : r < rowCount) (hj : j < 64) :
    m.f32 .output (out + (r * 64 + j)) =
      env.formula groupId slotId (batch.firstHeadId + h) batch.start batch.chunkLen
        (rowStart + r) j := by
  have helem : r * 64 + j < rowCount * 64 := by omega
  have hdiv : (r * 64 + j) / 64 = r := by omega
  have hmod : (r * 64 + j) % 64 = j := by omega
  have hrow : rowStart + r < batch.chunkLen := by omega
  refine (hres (r * 64 + j) helem).trans ?_
  simp only [tile, HeadTile.factor, HeadTile.less, HeadTile.column, HeadTile.rowFactor, hdiv, hmod,
    LaneEnv.formula, QueueId.padded, hrow, if_true]
  by_cases hcol : j < batch.chunkLen
  · simp only [hcol, if_true, true_and, decide_eq_true_eq]
    split
    · rw [← hexp]
      ring
    · ring
  · simp only [hcol, if_false, false_and, zero_mul]

/-- The output of a single head, over any rows of the chunk. -/
theorem single_output (hexp : ∀ a b, env.exp a * env.exp (-b) = env.exp (a - b))
    (hone : batch.heads = 1) (hin : rowStart + rowCount ≤ batch.chunkLen) (m : LaneMemory F)
    {r j : ℕ} (hr : r < rowCount) (hj : j < 64) :
    (runLane env (headOps groupId slotId batch.firstHeadId batch.start batch.chunkLen rowStart
      rowCount out) m).f32 .output (out + (r * 64 + j)) =
        env.formula groupId slotId batch.firstHeadId batch.start batch.chunkLen (rowStart + r)
          j := by
  have hrows : rowStart + rowCount ≤ 64 := Nat.le_trans hin batch.chunkLen_le
  have hres := headOps_triple groupId slotId out hrows hone m (by simp)
  have hval := output_eq hexp hrows hin (hres _ (List.mem_singleton_self _)) hr hj
  simpa using hval

/-- The outputs of a pair, over the first rows of the chunk. -/
theorem pair_output (hexp : ∀ a b, env.exp a * env.exp (-b) = env.exp (a - b))
    (htwo : batch.heads = 2) {out0 out1 : ℕ} (hin : rowCount ≤ batch.chunkLen)
    (hout : out0 + 4096 ≤ out1 ∨ out1 + 4096 ≤ out0) (m : LaneMemory F)
    {r j : ℕ} (hr : r < rowCount) (hj : j < 64) :
    let after := runLane env (headPairOps groupId slotId batch.firstHeadId batch.start
      batch.chunkLen rowCount out0 out1) m
    after.f32 .output (out0 + (r * 64 + j)) =
      env.formula groupId slotId batch.firstHeadId batch.start batch.chunkLen r j ∧
    after.f32 .output (out1 + (r * 64 + j)) =
      env.formula groupId slotId (batch.firstHeadId + 1) batch.start batch.chunkLen r j := by
  have hle := batch.chunkLen_le
  have hrows : 0 + rowCount ≤ 64 := by omega
  have hres := headPairOps_triple groupId slotId hrows htwo hout m (by simp)
  rw [FactLogic.sat_cons, FactLogic.sat_cons] at hres
  have h0 := output_eq hexp hrows (by omega) hres.1 hr hj
  have h1 := output_eq hexp hrows (by omega) hres.2.1 hr hj
  constructor
  · simpa using h0
  · simpa using h1

end HeadBatch

end

/-! ## The tile of a batch -/

/-- **The tile of a batch** from any contents of the lane's tensors: a single head over
any rows of the chunk, both heads of a pair over its first rows, and the equality of
the two. -/
theorem head_tile [CommRing F] [LinearOrder F] (env : LaneEnv F)
    (hexp : ∀ a b, env.exp a * env.exp (-b) = env.exp (a - b)) (ht : env.t < 1073741824)
    (groupId slotId : ℕ) (headId start : ℤ) (chunkLen : ℕ) (hhead : 0 ≤ headId)
    (hstart : 0 ≤ start) (hlen : chunkLen ≤ 64) (hend : start + chunkLen ≤ env.t) :
    (∀ rowStart rowCount out m, rowStart + rowCount ≤ chunkLen → ∀ r < rowCount, ∀ j < 64,
      (runLane env (headOps groupId slotId headId start chunkLen rowStart rowCount out) m).f32
        .output (out + (r * 64 + j)) =
          env.formula groupId slotId headId start chunkLen (rowStart + r) j) ∧
    (∀ rowCount out0 out1 m, rowCount ≤ chunkLen → out0 + 4096 ≤ out1 ∨ out1 + 4096 ≤ out0 →
      ∀ r < rowCount, ∀ j < 64,
        let after :=
          runLane env (headPairOps groupId slotId headId start chunkLen rowCount out0 out1) m
        after.f32 .output (out0 + (r * 64 + j)) =
          env.formula groupId slotId headId start chunkLen r j ∧
        after.f32 .output (out1 + (r * 64 + j)) =
          env.formula groupId slotId (headId + 1) start chunkLen r j) ∧
    (∀ rowCount out0 out1 m, rowCount ≤ chunkLen → out0 + 4096 ≤ out1 ∨ out1 + 4096 ≤ out0 →
      ∀ out m0 m1, ∀ r < rowCount, ∀ j < 64,
        let after :=
          runLane env (headPairOps groupId slotId headId start chunkLen rowCount out0 out1) m
        after.f32 .output (out0 + (r * 64 + j)) =
          (runLane env (headOps groupId slotId headId start chunkLen 0 rowCount out) m0).f32
            .output (out + (r * 64 + j)) ∧
        after.f32 .output (out1 + (r * 64 + j)) =
          (runLane env (headOps groupId slotId (headId + 1) start chunkLen 0 rowCount out) m1).f32
            .output (out + (r * 64 + j))) := by
  have hsingle : ∀ id : ℤ, 0 ≤ id → ∀ rowStart rowCount out m, rowStart + rowCount ≤ chunkLen →
      ∀ r < rowCount, ∀ j < 64,
        (runLane env (headOps groupId slotId id start chunkLen rowStart rowCount out) m).f32
          .output (out + (r * 64 + j)) =
            env.formula groupId slotId id start chunkLen (rowStart + r) j := by
    intro id hid rowStart rowCount out m hin r hr j hj
    let batch : HeadBatch env.t := ⟨id, start, chunkLen, 1, ht, hid, hstart, hlen, hend, by omega⟩
    exact batch.single_output hexp rfl hin m hr hj
  have hpair : ∀ rowCount out0 out1 m, rowCount ≤ chunkLen →
      out0 + 4096 ≤ out1 ∨ out1 + 4096 ≤ out0 → ∀ r < rowCount, ∀ j < 64,
        let after :=
          runLane env (headPairOps groupId slotId headId start chunkLen rowCount out0 out1) m
        after.f32 .output (out0 + (r * 64 + j)) =
          env.formula groupId slotId headId start chunkLen r j ∧
        after.f32 .output (out1 + (r * 64 + j)) =
          env.formula groupId slotId (headId + 1) start chunkLen r j := by
    intro rowCount out0 out1 m hin hout r hr j hj
    let batch : HeadBatch env.t :=
      ⟨headId, start, chunkLen, 2, ht, hhead, hstart, hlen, hend, by omega⟩
    exact batch.pair_output hexp rfl hin hout m hr hj
  refine ⟨hsingle headId hhead, hpair, ?_⟩
  intro rowCount out0 out1 m hin hout out m0 m1 r hr j hj
  have hboth := hpair rowCount out0 out1 m hin hout r hr j hj
  have h0 := hsingle headId hhead 0 rowCount out m0 (by omega) r hr j hj
  have h1 := hsingle (headId + 1) (by omega) 0 rowCount out m1 (by omega) r hr j hj
  rw [Nat.zero_add] at h0 h1
  exact ⟨hboth.1.trans h0.symm, hboth.2.trans h1.symm⟩

/-! ### Over the reals -/

theorem exp_mul_exp_neg (a b : ℝ) : Real.exp a * Real.exp (-b) = Real.exp (a - b) := by
  rw [← Real.exp_add, sub_eq_add_neg]

/-- Gates that grow with the token, unit betas and a constant Gram tile. -/
noncomputable def risingGates : LaneEnv ℝ where
  t := 100
  gGm i := i
  betaGm _ := 1
  kktWorkspace _ := 2
  exp := Real.exp

/-- Tensors full of old values. -/
def staleMemory : LaneMemory ℝ where
  f32 _ _ := 7
  mask _ _ := true

/-- Row 32 of a chunk of 40 tokens, which lane 1 owns, against columns 33 and 45. -/
theorem head_tile_risingGates :
    (runLane risingGates (headOps 0 1 3 20 40 32 8 0) staleMemory).f32 .output (0 + (0 * 64 + 33)) =
      Real.exp (-1) * 2 ∧
    (runLane risingGates (headOps 0 1 3 20 40 32 8 0) staleMemory).f32 .output (0 + (0 * 64 + 45)) =
      0 := by
  have htile := (head_tile risingGates exp_mul_exp_neg (by decide) 0 1 3 20 40 (by decide)
    (by decide) (by decide) (by decide)).1 32 8 0 staleMemory (by decide) 0 (by decide)
  have h352 : (352 : ℤ).toNat = 352 := by decide
  have h353 : (353 : ℤ).toNat = 353 := by decide
  constructor
  · rw [htile 33 (by decide)]
    norm_num [LaneEnv.formula, QueueId.value, QueueId.gm, risingGates, LaneEnv.gram,
      h352, h353]
  · rw [htile 45 (by decide)]
    simp [LaneEnv.formula]

end ChunkScaledDotKkt
