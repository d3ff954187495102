import ChunkScaledDotKkt.Kernel

/-!
# A call of the operator

The host infers the shape of the output, checks the shapes of the inputs, writes the tiling
data and asks for a workspace; the device then runs the launch that the tiling data
describes, with the cube stage that the tiling key selects.

A shape that the host accepts may still be too large for the 32-bit fields of the device
(`ShapeInfo.Fits`).

## Main results

* `Optiling.ShapeInfo.exists_launch` — the launch of an accepted shape and its sizes.
* `call_computes` — the launch of a call keeps to the buffers that the host sized and
  leaves the operator's values in the chunks in range.
-/

namespace ChunkScaledDotKkt

open MachineInt VectorStage TokenNet LaneRun Command

namespace Ops

def CHUNK_SIZE : ℤ := 64

/-- `InferShapeChunkScaledDotKkt` on the shapes of K and beta; `none` for a failed call.  The
flag tells whether there is an output shape to set. -/
def inferShapeChunkScaledDotKkt (kShape betaShape : Option (List ℤ)) (outputShape : Bool) :
    Option (List ℤ) := do
  let kShape ← kShape
  let betaShape ← betaShape
  if outputShape = false then none
  else if kShape.length ≠ 4 ∨ betaShape.length ≠ 3 then none
  else return [Optiling.getDim kShape 0, Optiling.getDim betaShape 1, Optiling.getDim kShape 1,
    CHUNK_SIZE]

end Ops

namespace Optiling

variable {context : TilingContext} {shape : ShapeInfo} {out : TilingOutput}

/-- The shapes of an accepted call. -/
theorem validateAndReadShape_shapes (h : validateAndReadShape context = .ok shape) :
    ∃ kShape betaShape, context.kShape = some kShape ∧ context.betaShape = some betaShape ∧
      kShape.length = 4 ∧ betaShape.length = 3 ∧ getDim kShape 0 = 1 ∧
      getDim kShape 1 = shape.t ∧ getDim betaShape 1 = shape.h := by
  unfold validateAndReadShape at h
  simp only [bind_eq_ok, opCheckIf_eq_ok, opCheckNull_eq_ok, pure, Except.pure, Except.ok.injEq,
    exists_and_left, exists_const, Bool.or_eq_false_iff, decide_eq_false_iff_not, ne_eq,
    Decidable.not_not] at h
  obtain ⟨hk, hbeta, -, -, hlen, ⟨hlen', -⟩, -, hb, -, -, -, -, -, -, rfl⟩ := h
  obtain ⟨kShape, hk⟩ := Option.isSome_iff_exists.mp hk
  obtain ⟨betaShape, hbeta⟩ := Option.isSome_iff_exists.mp hbeta
  rw [hk, Option.getD_some] at hlen hb
  rw [hbeta, Option.getD_some] at hlen'
  refine ⟨kShape, betaShape, hk, hbeta, hlen, hlen', hb, ?_, ?_⟩
  · rw [hk, Option.getD_some]
  · rw [hbeta, Option.getD_some]

/-- The tiling key and the workspace of a successful call. -/
theorem chunkScaledDotKktTilingFunc_sizes (h : chunkScaledDotKktTilingFunc context = .ok out)
    (hshape : validateAndReadShape context = .ok shape) :
    out.tilingKey = (if shape.kDim = K_128 then .k128 else .k256) ∧
      out.workspaceSize = u64 (context.libApiWorkSpaceSize.toNat +
        u64 (u64 out.tiling.blockDim * SLOT_COUNT * KKT_SLOT_BYTES)) := by
  unfold chunkScaledDotKktTilingFunc at h
  simp only [bind_eq_ok, opCheckIf_eq_ok, opCheckNull_eq_ok, pure, Except.pure, Except.ok.injEq,
    exists_and_left, exists_const, decide_eq_false_iff_not, Int.not_le] at h
  obtain ⟨-, -, shape', hshape', -, -, -, -, rfl⟩ := h
  rw [hshape] at hshape'
  cases hshape'
  exact ⟨rfl, rfl⟩

/-- The sizes stay below the limits of the 32-bit fields they are kept in. -/
structure ShapeInfo.Fits (shape : ShapeInfo) (aicNum : ℤ) : Prop where
  t_lt : shape.t < 1073741824
  stride_lt : shape.hg * shape.kDim < 65536
  repeat_lt : shape.h / shape.hg < 2147483648
  tasks_lt : shape.numChunks * shape.hg < 2147483648
  aic_lt : aicNum < 1073741824

end Optiling

namespace Launch

variable {L : Launch}

/-- A group has no more rounds than there are tasks. -/
theorem count_le {g : ℕ} (hg : g < L.groups) : L.count g ≤ L.chunks * L.kvHeads := by
  obtain ⟨hmaps, hinj, -⟩ := L.exact
  have hcard : (Finset.range (L.count g)).card ≤ (Finset.range (L.chunks * L.kvHeads)).card := by
    apply Finset.card_le_card_of_injOn (L.task g)
    · intro r hr
      have hlt := hmaps (x := (g, r)) ⟨hg, Finset.mem_range.mp hr⟩
      exact Finset.mem_coe.mpr (Finset.mem_range.mpr hlt)
    · intro r hr r' hr' heq
      have hround : ∀ {r}, r ∈ (Finset.range (L.count g) : Set ℕ) →
          (g, r) ∈ {p : ℕ × ℕ | p.1 < L.groups ∧ p.2 < L.count p.1} :=
        fun h => ⟨hg, Finset.mem_range.mp (Finset.mem_coe.mp h)⟩
      exact (Prod.mk.inj (hinj (hround hr) (hround hr') heq)).2
  simpa using hcard

end Launch

namespace Optiling

variable {shape : ShapeInfo} {aicNum : ℤ} {mode : KMode}

/-- **The launch of an accepted shape**: its chunks, heads and groups, none of them too large
for the device. -/
theorem ShapeInfo.Accepted.exists_launch (hs : shape.Accepted) (hfits : shape.Fits aicNum)
    (hmode : (mode.kDim : ℤ) = shape.kDim) :
    ∃ L : Launch, L.tiling = tilingOf shape aicNum ∧ (L.chunks : ℤ) = shape.numChunks ∧
      L.tiling.hg * L.tiling.numRepeat = shape.h ∧ L.groups < 1073741824 ∧ L.Sized mode := by
  have hblock : min aicNum (selectBlockDim shape aicNum) < 1073741824 :=
    (min_le_left _ _).trans_lt hfits.aic_lt
  obtain ⟨L, hL⟩ := Launch.exists_of_tilingOf hs (hblock.trans (by decide))
  have hpos := hs.hg_pos
  have hkv : (L.kvHeads : ℤ) = shape.hg := by
    rw [← L.hg_eq, hL]
    rfl
  have hchunks : (L.chunks : ℤ) = shape.numChunks := by
    have htotal := L.total_eq
    rw [hL, Nat.cast_mul, hkv] at htotal
    exact (mul_right_cancel₀ hpos.ne' htotal).symm
  have hgroups : (L.groups : ℤ) = max 1 (min aicNum (selectBlockDim shape aicNum)) := by
    rw [← L.blockDim_eq, hL]
    exact i32_eq_self (by omega) (by omega)
  have hquot : shape.h.tdiv shape.hg = shape.h / shape.hg := Int.tdiv_eq_ediv_of_nonneg hs.h_pos.le
  have hquot_pos : 0 < shape.h / shape.hg :=
    Int.ediv_pos_of_pos_of_dvd hs.h_pos hpos.le hs.hg_dvd
  have hrepeat : L.tiling.numRepeat = shape.h / shape.hg := by
    have hlt := hfits.repeat_lt
    rw [hL, ← hquot]
    rw [← hquot] at hquot_pos hlt
    exact i32_eq_self (by omega) (by omega)
  have hlt : L.groups < 1073741824 := by omega
  refine ⟨L, hL, hchunks, ?_, hlt, ?_⟩
  · rw [hrepeat, hL]
    exact Int.mul_ediv_cancel' hs.hg_dvd
  · constructor
    · rw [hrepeat]
      exact hquot_pos
    · rw [hL]
      exact hfits.t_lt
    · rw [hL, hmode]
      exact hfits.stride_lt
    · omega
    · intro g hg
      have htasks := hfits.tasks_lt
      rw [← hchunks, ← hkv] at htasks
      have hcount := Launch.count_le hg
      zify at hcount ⊢
      omega

/-- **The launch of a call.** -/
theorem exists_launch_of_call {context : TilingContext} {out : TilingOutput}
    (hshape : validateAndReadShape context = .ok shape)
    (hout : chunkScaledDotKktTilingFunc context = .ok out)
    (hfits : shape.Fits context.coreNumAic.toNat) :
    ∃ L : Launch, L.tiling = out.tiling ∧ L.tiling.t = shape.t ∧
      (L.chunks : ℤ) = shape.numChunks ∧ L.tiling.hg * L.tiling.numRepeat = shape.h ∧
      L.groups < 1073741824 ∧ shape.kDim.toNat = out.tilingKey.kDim ∧ L.Sized out.tilingKey := by
  have hs := validateAndReadShape_accepted hshape
  obtain ⟨shape', hshape', -, htiling⟩ := chunkScaledDotKktTilingFunc_ok hout
  rw [hshape] at hshape'
  cases hshape'
  have hmode : (out.tilingKey.kDim : ℤ) = shape.kDim := by
    rw [(chunkScaledDotKktTilingFunc_sizes hout hshape).1]
    rcases hs.kDim_mem with hk | hk <;> rw [hk] <;> rfl
  obtain ⟨L, hL, hchunks, hheads, hgroups, hsized⟩ := hs.exists_launch hfits hmode
  refine ⟨L, hL.trans htiling.symm, ?_, hchunks, hheads, hgroups, ?_, hsized⟩
  · rw [hL]
    rfl
  · rw [← hmode, Int.toNat_natCast]

/-- The workspace of a call holds the slots of its groups, behind the library's part. -/
theorem workspaceSize_eq {context : TilingContext} {out : TilingOutput}
    (h : chunkScaledDotKktTilingFunc context = .ok out)
    (hshape : validateAndReadShape context = .ok shape) {groups : ℕ}
    (hblock : out.tiling.blockDim = groups) (hlt : groups < 1073741824) :
    out.workspaceSize = context.libApiWorkSpaceSize.toNat +
      4 * (PackedGramMmadCubeStage.slotOffset groups 0 : ℤ) := by
  have hlib := context.libApiWorkSpaceSize.toNat_lt
  rw [(chunkScaledDotKktTilingFunc_sizes h hshape).2, hblock]
  simp only [u64, SLOT_COUNT, KKT_SLOT_BYTES, PackedGramMmadCubeStage.slotOffset]
  omega

end Optiling

variable {F : Type} [CommRing F] [LinearOrder F]

open Optiling Ops

/-- **A call computes its output.**  For every call that the host accepts, of sizes that fit
the fields of the device (`t` below `2^30`, rows of K of fewer than 65536 elements, and the
rest of `ShapeInfo.Fits`) and with offsets that do not decrease, which the host does not
look at, the device runs a launch with the tiling data of the call.  It never hangs and ends
in every interleaving, changes nothing outside the workspace of the size the host asked for
and nothing outside an output of the inferred shape, and at the end the operator's value is
in every element of a chunk in range; the other elements are as before. -/
theorem call_computes {context : TilingContext} {shape : ShapeInfo} {out : TilingOutput}
    (hshape : validateAndReadShape context = .ok shape)
    (hout : chunkScaledDotKktTilingFunc context = .ok out)
    (hfits : shape.Fits context.coreNumAic.toNat) (offsets : ChunkOffsets)
    (hmono : offsets.Nondecreasing shape.numChunks.toNat) (x : KernelInputs F)
    (hexp : ∀ a b, x.exp a * x.exp (-b) = x.exp (a - b)) (stale : ℕ → Fin 2 → ℕ → ℕ → F)
    (m : DeviceMemory F) (hidle : ∀ g lane, (m.lane g lane).Idle []) :
    ∃ L : Launch, L.tiling = out.tiling ∧ (L.chunks : ℤ) = shape.numChunks ∧
      ∃ outputShape, inferShapeChunkScaledDotKkt context.kShape context.betaShape true =
        some outputShape ∧
      ∃ calls : ℕ → Fin 2 → List LaneCall,
        (∀ g < L.groups, ∀ lane : Fin 2, ∀ fuel : ℕ, L.tiling.taskCount g < fuel →
          process L.tiling offsets (2 * g + lane : ℕ) fuel = some (calls g lane)) ∧
        ∀ s, L.DeviceReachable offsets x out.tilingKey stale calls m s →
          (¬ s.Final → ∃ s', Family.Step (net true) inOrder
            (L.deviceAct offsets x out.tilingKey stale) s s') ∧
          (∀ s', Family.Step (net true) inOrder (L.deviceAct offsets x out.tilingKey stale) s s' →
            s'.size (Finset.range L.groups) < s.size (Finset.range L.groups)) ∧
          (∀ a, s.mem.workspace a ≠ m.workspace a →
            (context.libApiWorkSpaceSize.toNat + 4 * (a + 1) : ℤ) ≤ out.workspaceSize) ∧
          (∀ a, s.mem.gm a ≠ m.gm a → 0 ≤ a ∧ a < outputShape.prod) ∧
          (s.Final → L.Computed offsets x shape.kDim.toNat m.gm s.mem.gm) := by
  obtain ⟨L, hL, ht, hchunks, hheads, hgroups, hkDim, hsized⟩ :=
    exists_launch_of_call hshape hout hfits
  obtain ⟨kShape, betaShape, hk, hbeta, hlen, hlen', hb, ht', hh⟩ :=
    validateAndReadShape_shapes hshape
  have hmono' : offsets.Nondecreasing L.chunks := by
    rw [← hchunks, Int.toNat_natCast] at hmono
    exact hmono
  have hw : ∀ c < L.chunks, ¬ offsets.Wraps c := fun c hc => hmono'.not_wraps hc
  obtain ⟨calls, hwalks, hloops⟩ := L.exists_walks offsets
  refine ⟨L, hL, hchunks, [1, shape.h, shape.t, CHUNK_SIZE], ?_, calls, hloops, ?_⟩
  · rw [hk, hbeta, ← hb, ← ht', ← hh]
    simp [inferShapeChunkScaledDotKkt, hlen, hlen']
  intro s hreach
  have hinv := Launch.deviceInvariant hsized hw hwalks hexp (fun g _ => hidle g) hreach
  refine ⟨Launch.device_step hsized hw hwalks hreach,
    fun s' hstep => hstep.size_lt fun g => Launch.todo_outside hreach, ?_, ?_, ?_⟩
  · intro a ha
    have hlt : a < PackedGramMmadCubeStage.slotOffset L.groups 0 := by
      by_contra hno
      exact ha (Launch.device_workspace hsized hw hwalks hreach (by omega))
    have hblock : out.tiling.blockDim = L.groups := by
      rw [← hL, L.blockDim_eq]
    rw [workspaceSize_eq hout hshape hblock hgroups]
    omega
  · intro a ha
    obtain ⟨c, hc, hin, head, hhead, hhead', i, j, hi, hj, rfl, -⟩ :=
      (hinv.gm_eq a).resolve_left ha
    have hprod : [1, shape.h, shape.t, CHUNK_SIZE].prod = shape.h * shape.t * 64 := by
      simp [CHUNK_SIZE, mul_assoc]
    have htoken := hin.nonneg
    have hend := hin.end_le
    rw [hprod, ← hheads, ← ht]
    exact Launch.elementOffset_lt ⟨hhead, hhead'⟩ (by omega) hj
  · intro hfinal
    rw [hkDim]
    exact hinv.computed hsized.numRepeat_pos hmono' hwalks hfinal

/-- The call of `sampleContext` leaves the workspace alone behind its 40 slots. -/
theorem call_computes_sample : ∃ L : Launch, L.tiling = tilingOf ⟨2560, 3, 1, 128, 40⟩ 20 ∧
    ∃ calls, ∀ s,
      L.DeviceReachable .full risingInputs .k128 (fun _ _ _ a => a) calls staleDevice s →
      ∀ a, 163840 ≤ a → s.mem.workspace a = staleDevice.workspace a := by
  obtain ⟨L, hL, -, _, -, calls, -, h⟩ := @call_computes ℝ _ _ sampleContext
    ⟨2560, 3, 1, 128, 40⟩ ⟨tilingOf ⟨2560, 3, 1, 128, 40⟩ 20, 1, .k128, 655360⟩ rfl rfl
    ⟨by decide, by decide, by decide, by decide, by decide⟩ .full
    (ChunkOffsets.full_nondecreasing (by decide)) risingInputs exp_mul_exp_neg
    (fun _ _ _ a => a) staleDevice fun _ _ => ⟨rfl, rfl⟩
  refine ⟨L, hL, calls, fun s hs a ha => ?_⟩
  by_contra hne
  have hle := (h s hs).2.2.1 a hne
  have hlib : (sampleContext.libApiWorkSpaceSize.toNat : ℤ) = 0 := rfl
  simp only [hlib] at hle
  omega

end ChunkScaledDotKkt
