import ChunkScaledDotKkt.Vector.HeadInputs
import ChunkScaledDotKkt.Vector.OutputMemory

/-!
# The batch of a full chunk

The commands that a lane runs for one or two heads of a chunk of 64 tokens, up to the
final multiply.  They are the same in a single task and in a fused pair, except for the
place of the tiles in the output tensor.  Nothing is assumed of `t`: the rows are those
that the copy's descriptor selects.

## Main results

* `fullBatch_triple` — both tiles of a batch, wherever they lie in the output.
* `fullBatch_keeps` — a tile that lies elsewhere in the output stays.
-/

namespace ChunkScaledDotKkt

open MachineInt Buffer VectorUnit VectorStage

variable {F : Type}

namespace VectorStage

/-- The loads of one or two heads of a full chunk. -/
def fullInputs (groupId slotId : ℕ) (firstHeadId start : ℤ) (heads : ℕ) : List LaneOp :=
  prefetchGateAndBetaBatch firstHeadId start 64 heads ++ (.waitReady slotId ::
  (beginLoadKktSlot groupId slotId 64 0 64 ++ [.queue .gate .deQue, .queue .beta .deQue]))

/-- The factor stage, the release of the slot and the final multiplies. -/
def fullBatch (kPair : Bool) (slotId : ℕ) (reuse : Bool) (out0 out1 : ℕ) : List LaneOp :=
  (if kPair then prepareHeadPairFactor 64 64 out0 out1 else prepareHeadFactor 64 0 64 out0) ++
  (completeKktLoadAndReleaseSlot slotId reuse ++
  (.vector (.mul ⟨.output, out0⟩ ⟨.kkt, 0⟩ ⟨.output, out0⟩ (64 * 64)) ::
    if kPair then [.vector (.mul ⟨.output, out1⟩ ⟨.kkt, 0⟩ ⟨.output, out1⟩ (64 * 64))] else []))

def freeBatch : List LaneOp := [.queue .gate .freeTensor, .queue .beta .freeTensor]

/-- Tokens between the rows of two heads in the source, as the descriptor encodes them. -/
def sourcePitch (id : QueueId) (t : ℤ) : ℕ :=
  let params := gateOrBetaParams id.perBlock t 64 2
  (params.blockLen + params.srcStride) / (32 / id.perBlock)

/-- The rows of one or two heads of a full chunk. -/
theorem copyGateOrBeta_full [Zero F] (id : QueueId) {t : ℤ} {heads : ℕ} {src dst : ℕ → F}
    (hheads : heads = 1 ∨ heads = 2) {h j : ℕ} (hh : h < heads) (hj : j < 64) :
    copyGateOrBeta id.perBlock t 64 heads src dst (h * 64 + j) =
      src (h * sourcePitch id t + j) := by
  cases hheads with
  | inl hone =>
      subst hone
      have h0 : h = 0 := by omega
      subst h0
      simp [copyGateOrBeta, hj]
  | inr htwo =>
      subst htwo
      have hblock : (gateOrBetaParams id.perBlock t 64 2).blockLen / (32 / id.perBlock) = 64 := by
        cases id <;> simp [gateOrBetaParams, QueueId.perBlock, u32]
      have hpitch : paddedLen id.perBlock (64 + 0) +
          (gateOrBetaParams id.perBlock t 64 2).dstStride * id.perBlock = 64 := by
        cases id <;> simp [gateOrBetaParams, QueueId.perBlock, paddedLen]
      have hpad : (if (gateOrBetaPad id.perBlock 64 : DataCopyPadExtParams F).isPad then
          (gateOrBetaPad id.perBlock 64 : DataCopyPadExtParams F).rightPadding else 0) = 0 := by
        simp [gateOrBetaPad]
      have hcount : (gateOrBetaParams id.perBlock t 64 2).blockCount = 2 := rfl
      rw [copyGateOrBeta, if_neg (by omega),
        dataCopyPad_apply rfl hblock hpad (Nat.le_refl 64) hpitch hj, hcount,
        if_pos ⟨hh, by omega⟩, if_pos hj, sourcePitch]

end VectorStage

/-- Gate or beta of a row of a batch. -/
def QueueId.fullRow (id : QueueId) (env : LaneEnv F) (firstHeadId start : ℤ) (h j : ℕ) : F :=
  id.gm env ((firstHeadId * env.t + start).toNat + (h * sourcePitch id env.t + j))

section

variable [CommRing F] [LinearOrder F]

/-- A batch of one or two heads of a full chunk, and where its tiles go. -/
structure FullBatch (F : Type) where
  env : LaneEnv F
  groupId : ℕ
  slotId : ℕ
  firstHeadId : ℤ
  start : ℤ
  kPair : Bool

namespace FullBatch

variable (b : FullBatch F)

def heads : ℕ := if b.kPair then 2 else 1

def tile (h out : ℕ) : HeadTile F where
  paired := b.kPair
  head := h
  out := out
  chunkLen := 64
  rowStart := 0
  rowCount := 64
  g := QueueId.gate.fullRow b.env b.firstHeadId b.start h
  beta := QueueId.beta.fullRow b.env b.firstHeadId b.start h
  kkt a := if a % 64 < 64 then b.env.gram b.groupId b.slotId (0 + a / 64) (a % 64) else 0
  chunkLen_le := Nat.le_refl 64
  rows_le := by decide

/-- The output of head `h`, element by element. -/
def result (h a : ℕ) : F := (b.tile h 0).kkt a * (b.tile h 0).factor b.env.exp a

/-- A tile of the batch in the output tensor. -/
def resultAt (h out : ℕ) : Fact F := .tensor ⟨.output, out⟩ 4096 (b.result h)

/-- The loads, whatever the tensors held before. -/
theorem inputs_triple {h : ℕ} (hh : h < b.heads) (out : ℕ) :
    (laneLogic b.env).Triple []
      (fullInputs b.groupId b.slotId b.firstHeadId b.start b.heads) (b.tile h out).inputs := by
  have hheads : b.heads = 1 ∨ b.heads = 2 := by
    cases hpair : b.kPair <;> simp [heads, hpair]
  have hwait : ∀ Γ, (laneLogic b.env).KeepsAll Γ (.waitReady b.slotId) := fun _ _ _ => trivial
  have hrow : ∀ id : QueueId, (laneLogic b.env).Triple []
      (fullInputs b.groupId b.slotId b.firstHeadId b.start b.heads)
      [.tensor ⟨id.buf .current, h * 64⟩ 64 (id.fullRow b.env b.firstHeadId b.start h)] := by
    intro id
    refine .append (prefetch_passes fun m => ?_) (.skip (hwait _)
      (.append (.frame (beginLoadKktSlot_keeps _ _ _ _ _)) deQue_passes))
    intro j hj
    have hw : ((LaneOp.copyGateOrBeta id b.firstHeadId b.start 64 b.heads).act b.env m).f32
        (id.buf .fresh) (0 + (h * 64 + j)) = copyGateOrBeta id.perBlock b.env.t 64 b.heads
          (slice (b.firstHeadId * b.env.t + b.start).toNat (id.gm b.env)) _ (h * 64 + j) :=
      LaneMemory.write_f32_add
    rw [copyGateOrBeta_full id hheads hh hj, Nat.zero_add] at hw
    exact hw
  have hkkt : (laneLogic b.env).Triple []
      (fullInputs b.groupId b.slotId b.firstHeadId b.start b.heads)
      [kktRows b.env b.groupId b.slotId 64 0 64] := by
    refine .append .trivial (.skip (hwait _) (.append (beginLoadKktSlot_triple (Nat.le_refl 64)
      (Nat.le_refl 64)) (.frame ?_)))
    simp [kktRows, QueueId.buf]
  exact ((hrow .gate).and (hrow .beta)).and hkkt

/-- The release of the slot touches no tensor. -/
theorem completeLoad_keeps (slotId : ℕ) (reuse : Bool) (Γ : List (Fact F)) :
    ∀ c ∈ completeKktLoadAndReleaseSlot slotId reuse, (laneLogic b.env).KeepsAll Γ c := by
  intro c hc
  cases reuse <;> simp [completeKktLoadAndReleaseSlot] at hc
  · subst hc
    exact fun _ _ => trivial
  · rcases hc with rfl | rfl <;> exact fun _ _ => trivial

/-- **The batch** leaves the result of each of its heads in the output. -/
theorem fullBatch_triple {h out0 out1 : ℕ} (hh : h < b.heads)
    (hout : out0 + 4096 ≤ out1 ∨ out1 + 4096 ≤ out0) (reuse : Bool) :
    (laneLogic b.env).Triple (b.tile h (if h = 0 then out0 else out1)).inputs
      (fullBatch b.kPair b.slotId reuse out0 out1)
      [b.resultAt h (if h = 0 then out0 else out1)] := by
  have hcomplete := fun Γ => FactLogic.Triple.frame (b.completeLoad_keeps b.slotId reuse Γ)
  cases hpair : b.kPair with
  | false =>
      have h0 : h = 0 := by
        simp only [heads, hpair, Bool.false_eq_true, if_false] at hh
        omega
      subst h0
      have hfactor := HeadTile.prepareHeadFactor_triple (x := b.tile 0 out0) b.env hpair rfl
      have hmul := (b.tile 0 out0).result_step b.env
      refine .append hfactor (.append (hcomplete _) (hmul.weaken (List.Subset.refl _) ?_))
      exact List.cons_subset.mpr ⟨List.mem_cons_self, List.nil_subset _⟩
  | true =>
      have hcases : h = 0 ∨ h = 1 := by
        simp only [heads, hpair, if_true] at hh
        omega
      cases hcases with
      | inl h0 =>
          subst h0
          have hfactor := HeadTile.prepareHeadPairFactor_first (x := b.tile 0 out0) b.env hpair rfl
            rfl hout
          have hmul := (b.tile 0 out0).result_step b.env
          refine .append hfactor (.append (hcomplete _) (.cons hmul (.skip ?_ (.nil ?_))))
          · exact HeadTile.otherResult_keeps (x := b.tile 0 out0) hout _
          · exact List.cons_subset.mpr ⟨List.mem_cons_self, List.nil_subset _⟩
      | inr h1 =>
          subst h1
          have hfactor := HeadTile.prepareHeadPairFactor_second (x := b.tile 1 out1) b.env hpair rfl
            rfl hout.symm
          have hmul := (b.tile 1 out1).result_step b.env
          refine .append hfactor (.append (hcomplete _) (.skip ?_
            (hmul.weaken (List.Subset.refl _) ?_)))
          · exact HeadTile.otherResult_keeps (x := b.tile 1 out1) hout.symm _
          · exact List.cons_subset.mpr ⟨List.mem_cons_self, List.nil_subset _⟩

/-- A tile that lies apart from those of the batch stays in the output. -/
theorem fullBatch_keeps {out out0 out1 : ℕ} {val : ℕ → F} (reuse : Bool)
    (h0 : out0 + 4096 ≤ out ∨ out + 4096 ≤ out0) (h1 : out1 + 4096 ≤ out ∨ out + 4096 ≤ out1) :
    (laneLogic b.env).Triple [.tensor ⟨.output, out⟩ 4096 val]
      (fullInputs b.groupId b.slotId b.firstHeadId b.start b.heads ++
        fullBatch b.kPair b.slotId reuse out0 out1) [.tensor ⟨.output, out⟩ 4096 val] := by
  have hrows : rowRepeats 64 = 64 := HeadTile.rowRepeats_eq (Nat.le_refl 64)
  have hblocks : rowBrcbRepeats 64 = 8 := HeadTile.rowBrcbRepeats_eq (Nat.le_refl 64)
  have hcomplete := b.completeLoad_keeps b.slotId reuse [.tensor ⟨.output, out⟩ 4096 val]
  refine .append (.frame ?_) (.append (.frame ?_) (.append (.frame hcomplete) (.frame ?_)))
  · simp [fullInputs, prefetchGateAndBetaBatch, beginLoadKktSlot, QueueId.buf]
  · cases b.kPair with
    | false =>
        simp [prepareHeadFactor, hrows, hblocks]
        omega
    | true =>
        simp [prepareHeadPairFactor, hrows, hblocks]
        omega
  · cases b.kPair with
    | false =>
        simp
        omega
    | true =>
        simp
        omega

end FullBatch

end

end ChunkScaledDotKkt
