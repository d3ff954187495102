import ChunkScaledDotKkt.Call
import ChunkScaledDotKkt.Harness.Verdict

/-!
# A test case on the device

`RunOneCase` makes tensors of a case, lets the host tile them, launches the operator a
number of times over an output full of poison and validates what is in the output then.
The expected values are computed by code of its own, from the same inputs.

In exact arithmetic the expected value of an element is the operator's value, so a case that
the harness accepts passes.  The calls to the runtime, which may fail, are left out.

## Main results

* `computeExpectedAt_eq` — the expected values are those of the operator.
* `case_passes` — every accepted case passes both validators.
-/

namespace ChunkScaledDotKkt.Harness

open MachineInt IntervalChain Optiling VectorStage TokenNet

variable {F : Type} {tc : TestCase}

/-! ## What the host sees -/

namespace TestCase

variable (tc : TestCase)

/-- The shapes of the tensors of a case, on a platform. -/
def tilingContext (coreNumAic libApiWorkSpaceSize : UInt32) : TilingContext where
  kShape := some [1, tc.t, tc.hg, tc.k]
  betaShape := some [1, tc.h, tc.t]
  gShape := some [1, tc.h, tc.t]
  offsetShape := some [tc.chunkOffsets.length]
  platformInfo := true
  coreNumAic := coreNumAic
  libApiWorkSpaceSize := libApiWorkSpaceSize
  tilingData := true
  setScheduleMode := true
  setBlockDim := true
  workspaceSizes := true

def shape : ShapeInfo := ⟨tc.t, tc.h, tc.hg, tc.k, tc.chunkOffsets.length - 1⟩

/-- The tensor of the offsets; the kernel reads none behind its end. -/
def deviceOffsets : ChunkOffsets where
  getValue c := i32 (tc.chunkOffsets.getD c.toNat 0)
  le_getValue _ := le_i32 _
  getValue_lt _ := i32_lt _

end TestCase

/-- The tensors of the inputs, with the exact values of their entries. -/
def deviceInputs [Field F] [LinearOrder F] (fl : CheckFloat F) (inputs : HostInputs F) :
    KernelInputs F where
  kGm a := bFloat16ToFloat fl.toHostFloat (inputs.k a)
  gGm a := inputs.g a
  betaGm a := bFloat16ToFloat fl.toHostFloat (inputs.beta a)
  exp := fl.exp

/-- The fields of an accepted case. -/
structure TestCase.Fields (tc : TestCase) : Prop where
  t_pos : 0 < tc.t
  h_pos : 0 < tc.h
  hg_pos : 0 < tc.hg
  hg_dvd : tc.hg ∣ tc.h
  k_mem : tc.k = 128 ∨ tc.k = 256
  repeats_pos : 0 < tc.repeats
  warmup_nonneg : 0 ≤ tc.warmup

theorem validateCase_fields (h : validateCase tc = true) : tc.Fields := by
  rw [validateCase, Bool.and_eq_true] at h
  have hfields := h.1
  simp only [TestCase.fieldsAccepted, Bool.not_eq_true', Bool.or_eq_false_iff,
    Bool.and_eq_false_imp, decide_eq_false_iff_not, not_le, not_lt, bne_eq_false_iff_eq,
    bne_iff_ne, ne_eq] at hfields
  obtain ⟨⟨⟨⟨⟨⟨⟨ht, hh⟩, hhg⟩, hdvd⟩, hk⟩, hwarmup⟩, hrepeats⟩, -⟩ := hfields
  exact ⟨ht, hh, hhg, Int.dvd_of_emod_eq_zero hdvd, Classical.or_iff_not_imp_left.mpr hk, hrepeats,
    hwarmup⟩

/-- The host accepts the shapes of an accepted case. -/
theorem validateAndReadShape_eq (h : validateCase tc = true) (coreNumAic lib : UInt32) :
    validateAndReadShape (tc.tilingContext coreNumAic lib) = .ok tc.shape := by
  obtain ⟨ht, hh, hhg, hdvd, hk, -, -⟩ := validateCase_fields h
  have hlen := (validateCase_accepted h).two_le
  have hmod : tc.h.tmod tc.hg = 0 := Int.tmod_eq_zero_of_dvd hdvd
  have hpos : ¬ ((tc.t ≤ 0 ∨ tc.h ≤ 0) ∨ tc.hg ≤ 0) := by omega
  have hkDim : ¬ (¬ tc.k = K_128 ∧ ¬ tc.k = K_256) := by
    rw [not_and_or, not_not, not_not]
    exact hk
  have hcount : ¬ tc.chunkOffsets.length ≤ 1 := by omega
  simp [validateAndReadShape, TestCase.tilingContext, TestCase.shape, getDim, opCheckIf,
    opCheckNull, B_SUPPORTED, hmod, hpos, hkDim, hcount]
  rfl

/-- The host tiles an accepted case. -/
theorem chunkScaledDotKktTilingFunc_case (h : validateCase tc = true) {coreNumAic : UInt32}
    (hcore : 0 < coreNumAic.toNat) (lib : UInt32) :
    ∃ out, chunkScaledDotKktTilingFunc (tc.tilingContext coreNumAic lib) = .ok out := by
  have hshape := validateAndReadShape_eq h coreNumAic lib
  have haic : decide ((coreNumAic.toNat : ℤ) ≤ 0) = false := by
    rw [decide_eq_false_iff_not]
    omega
  unfold chunkScaledDotKktTilingFunc
  simp only [bind_eq_ok, opCheckIf_eq_ok, opCheckNull_eq_ok, pure, Except.pure, Except.ok.injEq,
    exists_and_left, exists_const]
  exact ⟨rfl, haic, _, tc.shape, hshape, rfl, rfl, rfl, rfl, rfl⟩

/-! ## Chunks -/

/-- The kernel reads the offsets of the case. -/
theorem deviceOffsets_getValue (h : Accepted tc.t tc.chunkOffsets) {c : ℕ} {x : ℤ}
    (hx : tc.chunkOffsets[c]? = some x) : tc.deviceOffsets.getValue c = x := by
  have hmem := List.mem_of_getElem? hx
  have hbetween := between_ends h.increasing h.head h.last hmem
  have hlt := tc.offsets_lt x hmem
  simp only [TestCase.deviceOffsets, Int.toNat_natCast, List.getD_eq_getElem?_getD, hx,
    Option.getD_some]
  exact i32_eq_self (by omega) (by omega)

theorem deviceOffsets_inRange (h : Accepted tc.t tc.chunkOffsets) {c : ℕ}
    (hc : c + 1 < tc.chunkOffsets.length) : tc.deviceOffsets.InRange tc.t c := by
  have hbegin : tc.chunkOffsets[c]? = some tc.chunkOffsets[c] := List.getElem?_eq_getElem (by omega)
  have hstop : tc.chunkOffsets[c + 1]? = some tc.chunkOffsets[c + 1] := List.getElem?_eq_getElem hc
  have hmem := mem_intervals hbegin hstop
  obtain ⟨h0, hlt, hle⟩ := h.inRange hmem
  have hlen := h.len_le _ hmem
  have hb := deviceOffsets_getValue h hbegin
  have hs := deviceOffsets_getValue h hstop
  push_cast at hs
  constructor <;> simp only [hb, hs] <;> assumption

theorem deviceOffsets_nondecreasing (h : Accepted tc.t tc.chunkOffsets) :
    tc.deviceOffsets.Nondecreasing (tc.chunkOffsets.length - 1) :=
  fun _ hc => (deviceOffsets_inRange h (by omega)).start_lt.le

/-! ## Expected values -/

section

variable [Field F] [LinearOrder F] [IsStrictOrderedRing F] (exp : F → F) (bits : F → ℕ)
  (ofBits : ℕ → F)

omit [LinearOrder F] [IsStrictOrderedRing F] in
/-- A running sum in order. -/
theorem foldl_range_add (f : ℕ → F) (n : ℕ) :
    (List.range n).foldl (fun sum d => sum + f d) 0 = ∑ d ∈ Finset.range n, f d := by
  induction n with
  | zero => rfl
  | succ n ih => rw [List.range_succ, List.foldl_append, ih, Finset.sum_range_succ]; rfl

omit [IsStrictOrderedRing F] in
theorem exactFloat_zero : (exactFloat exp bits ofBits).lit 0 = 0 := Rat.cast_zero

omit [IsStrictOrderedRing F] in
/-- The product of two rows. -/
theorem expectedDot_eq (inputs : HostInputs F) (tiling : ChunkScaledDotKktTilingData)
    (hhg : tiling.hg = tc.hg) (hhg0 : 0 < tc.hg) (hk : 0 < tc.k) {kv token j : ℤ} (hkv : 0 ≤ kv)
    (htoken : 0 ≤ token) (hj : 0 ≤ j) :
    let x := deviceInputs (exactFloat exp bits ofBits) inputs
    expectedDot (exactFloat exp bits ofBits).toHostFloat tc inputs kv token j =
      ∑ c ∈ Finset.range tc.k.toNat,
        x.k tiling.hg tc.k.toNat token kv c * x.k tiling.hg tc.k.toNat j kv c := by
  have hkDim : (tc.k.toNat : ℤ) = tc.k := Int.toNat_of_nonneg hk.le
  have hindex : ∀ {token : ℤ}, 0 ≤ token → ∀ c : ℕ,
      (((token * tc.hg + kv) * tc.k + c).toNat : ℤ) = (token * tc.hg + kv) * tc.k + c := by
    intro token htoken c
    apply Int.toNat_of_nonneg
    positivity
  have hvalue : ∀ {token : ℤ}, 0 ≤ token → ∀ c : ℕ,
      (deviceInputs (exactFloat exp bits ofBits) inputs).k tiling.hg tc.k.toNat token kv c =
        bFloat16ToFloat (exactFloat exp bits ofBits).toHostFloat
          (inputs.k ((token * tc.hg + kv) * tc.k + c)) := by
    intro token htoken c
    simp only [KernelInputs.k, deviceInputs, hhg, hkDim, hindex htoken]
  simp only [hvalue htoken, hvalue hj]
  rw [expectedDot, ← foldl_range_add]
  simp only [List.bind_eq_flatMap, List.pure_def, ← List.map_eq_flatMap, List.foldl_map,
    exactFloat_zero]
  rfl

omit [IsStrictOrderedRing F] in
/-- The gate and the beta of a token. -/
theorem deviceInputs_row (inputs : HostInputs F) {tiling : ChunkScaledDotKktTilingData}
    (ht : tiling.t = tc.t) (ht0 : 0 < tc.t) {head i : ℤ} (hhead : 0 ≤ head) (hi : 0 ≤ i) :
    let x := deviceInputs (exactFloat exp bits ofBits) inputs
    x.g tiling.t head i = inputs.g (head * tc.t + i) ∧
      x.beta tiling.t head i = bFloat16ToFloat (exactFloat exp bits ofBits).toHostFloat
        (inputs.beta (head * tc.t + i)) := by
  have hmul : 0 ≤ head * tc.t := mul_nonneg hhead ht0.le
  have hindex : ((head * tc.t + i).toNat : ℤ) = head * tc.t + i := by omega
  simp only [KernelInputs.g, KernelInputs.beta, deviceInputs, ht, hindex, and_self]

/-- **The expected values are the operator's**, in exact arithmetic. -/
theorem computeExpectedAt_eq (hcase : validateCase tc = true) (inputs : HostInputs F)
    {tiling : ChunkScaledDotKktTilingData} (ht : tiling.t = tc.t) (hhg : tiling.hg = tc.hg)
    (hrep : tiling.numRepeat = tc.h / tc.hg) {head token : ℤ} (hhead : 0 ≤ head ∧ head < tc.h)
    (htoken : 0 ≤ token ∧ token < tc.t) {localJ : ℕ} (hlocal : localJ < 64) {begin stop : ℤ}
    (hb : tc.chunkOffsets[tc.findChunkIndex token]? = some begin)
    (hs : tc.chunkOffsets[tc.findChunkIndex token + 1]? = some stop) (hle : begin ≤ token) :
    computeExpectedAt (exactFloat exp bits ofBits).toHostFloat tc inputs head token localJ =
      (deviceInputs (exactFloat exp bits ofBits) inputs).element tiling tc.k.toNat begin
        (stop - begin) head (token - begin).toNat localJ := by
  obtain ⟨ht0, hh0, hhg0, -, hk, -, -⟩ := validateCase_fields hcase
  have hacc := validateCase_accepted hcase
  have hk0 : 0 < tc.k := by omega
  have hbegin := (between_ends hacc.increasing hacc.head hacc.last (List.mem_of_getElem? hb)).1
  have hlen : ¬ tc.chunkOffsets.length ≤ tc.findChunkIndex token + 1 := by
    obtain ⟨hlt, -⟩ := List.getElem?_eq_some_iff.mp hs
    omega
  have htokenEq : begin + ((token - begin).toNat : ℤ) = token := by omega
  have hkv : 0 ≤ head / (tc.h / tc.hg) := Int.ediv_nonneg hhead.1 (Int.ediv_nonneg hh0.le hhg0.le)
  have hkvHead : head.tdiv (tc.h.tdiv tc.hg) = head / (tc.h / tc.hg) := by
    rw [Int.tdiv_eq_ediv_of_nonneg hh0.le, Int.tdiv_eq_ediv_of_nonneg hhead.1]
  have hj : 0 ≤ begin + (localJ : ℤ) := by omega
  have hread := fun {i : ℤ} => deviceInputs_row exp bits ofBits inputs ht ht0 hhead.1 (i := i)
  have hdot := expectedDot_eq exp bits ofBits inputs tiling hhg hhg0 hk0 hkv htoken.1 hj
  have hget : tc.chunkOffsets.getD (tc.findChunkIndex token) 0 = begin := by
    rw [List.getD_eq_getElem?_getD, hb, Option.getD_some]
  have hget' : tc.chunkOffsets.getD (tc.findChunkIndex token + 1) 0 = stop := by
    rw [List.getD_eq_getElem?_getD, hs, Option.getD_some]
  simp only [computeExpectedAt, KernelInputs.element, if_neg hlen, hget, hget', htokenEq, hrep,
    hkvHead,
    (hread htoken.1).1, (hread hj).1, (hread htoken.1).2, ← hdot, exactFloat_zero]
  by_cases hpast : stop ≤ begin + (localJ : ℤ)
  · rw [if_pos hpast, if_neg fun hin => by omega]
  · rw [if_neg hpast]
    have hin : (localJ : ℤ) < stop - begin := by omega
    have hneg : ∀ a b : F,
        (exactFloat exp bits ofBits).lt ((exactFloat exp bits ofBits).sub a b) 0 =
        decide (a < b) := fun a b => decide_eq_decide.mpr sub_neg
    rw [hneg]
    by_cases hgrows : inputs.g (head * tc.t + token) < inputs.g (head * tc.t + (begin + localJ))
    · rw [if_neg (by simpa using hgrows), if_pos ⟨hin, hgrows⟩]
      rfl
    · rw [if_pos (by simpa using hgrows), if_neg fun hboth => hgrows hboth.2]

end

/-! ## Launches -/

section

variable [CommRing F] [LinearOrder F] (L : Launch) (offsets : ChunkOffsets) (x : KernelInputs F)
  (mode : KMode) (calls : ℕ → Fin 2 → List LaneCall)

/-- One launch, to its end, turns the output `before` into `after`; the other memories are
arbitrary. -/
def launched (before after : ℤ → F) : Prop :=
  ∃ stale m s, m.gm = before ∧ (∀ g lane, (m.lane g lane).Idle []) ∧
    L.DeviceReachable offsets x mode stale calls m s ∧ s.Final ∧ s.mem.gm = after

/-- A number of launches, one after the other. -/
def launches : ℕ → (ℤ → F) → (ℤ → F) → Prop
  | 0, before, after => after = before
  | n + 1, before, after =>
      ∃ between, launches n before between ∧ launched L offsets x mode calls between after

end

variable [Field F] [LinearOrder F] [IsStrictOrderedRing F]

/-- An output that the operator has computed matches everywhere. -/
theorem outputMatches_of_computed (hcase : validateCase tc = true) (inputs : HostInputs F)
    (exp : F → F) (bits : F → ℕ) (ofBits : ℕ → F) {L : Launch} (ht : L.tiling.t = tc.t)
    (hhg : L.tiling.hg = tc.hg) (hheads : L.tiling.hg * L.tiling.numRepeat = tc.h)
    (hchunks : (L.chunks : ℤ) = tc.chunkOffsets.length - 1) {before actual : ℤ → F}
    (h : L.Computed tc.deviceOffsets (deviceInputs (exactFloat exp bits ofBits) inputs) tc.k.toNat
      before actual) :
    OutputMatches (exactFloat exp bits ofBits) tc inputs actual := by
  have hacc := validateCase_accepted hcase
  have hhg0 := (validateCase_fields hcase).hg_pos
  have hrep : L.tiling.numRepeat = tc.h / tc.hg := by
    rw [← hheads, hhg, Int.mul_ediv_cancel_left _ hhg0.ne']
  intro head token localJ hhead htoken hlocal
  obtain ⟨hc, begin, stop, hb, hs, hle, hlt, -⟩ :=
    findChunkIndex_spec hacc (Int.natCast_nonneg token) htoken
  set c := tc.findChunkIndex token with hcdef
  have hgetb := deviceOffsets_getValue hacc hb
  have hgets : tc.deviceOffsets.getValue (c + 1) = stop := by
    have := deviceOffsets_getValue hacc hs
    push_cast at this
    exact this
  have hexpected := computeExpectedAt_eq exp bits ofBits hcase inputs ht hhg hrep
    ⟨Int.natCast_nonneg head, hhead⟩ ⟨Int.natCast_nonneg token, htoken⟩ hlocal hb hs hle
  have helement : L.IsElement tc.deviceOffsets (deviceInputs (exactFloat exp bits ofBits) inputs)
      tc.k.toNat ((head * tc.t + token) * kChunkSize + localJ)
      (computeExpectedAt (exactFloat exp bits ofBits).toHostFloat tc inputs head token localJ) := by
    refine ⟨c, by omega, ht ▸ deviceOffsets_inRange hacc hc, head, Int.natCast_nonneg head,
      by omega, (token - begin).toNat, localJ, ?_, hlocal, ?_, ?_⟩
    · rw [hgetb, hgets]
      omega
    · have htokenEq : begin + ((token - begin : ℤ).toNat : ℤ) = token := by omega
      rw [hgetb, htokenEq, ht]
      rfl
    · rw [hgetb, hgets]
      exact hexpected
  rw [elementMatches, OutputCheck.matches]
  have hvalue :
      actual (elementCheck (exactFloat exp bits ofBits) tc inputs head token localJ).index =
      (elementCheck (exactFloat exp bits ofBits) tc inputs head token localJ).expected :=
    h.element _ _ helement
  rw [hvalue]
  exact valuesMatch_self exp bits ofBits _

omit [IsStrictOrderedRing F] in
/-- Launches that can be ended can follow one another. -/
theorem exists_launches {L : Launch} {offsets : ChunkOffsets} {x : KernelInputs F} {mode : KMode}
    {calls : ℕ → Fin 2 → List LaneCall} {stale : ℕ → Fin 2 → ℕ → ℕ → F} {m : DeviceMemory F}
    (hidle : ∀ g lane, (m.lane g lane).Idle [])
    (hends : ∀ m : DeviceMemory F, (∀ g lane, (m.lane g lane).Idle []) →
      ∃ s, L.DeviceReachable offsets x mode stale calls m s ∧ s.Final)
    (n : ℕ) (before : ℤ → F) : ∃ after, launches L offsets x mode calls n before after := by
  induction n with
  | zero => exact ⟨before, rfl⟩
  | succ n ih =>
      obtain ⟨between, hbetween⟩ := ih
      obtain ⟨s, hreach, hfinal⟩ := hends { m with gm := between } hidle
      exact ⟨s.mem.gm, between, hbetween, stale, { m with gm := between }, s, rfl, hidle, hreach,
        hfinal, rfl⟩

/-- **Accepted cases pass.**  For every case that the harness accepts, of sizes that fit the
device, and all inputs: the host tiles it; in every launch, however the commands interleave,
the device never hangs and every step leaves less to do, so that the launches can follow one
another to the end; and whatever was in the output before, after the warm-up and the measured
launches the full validator accepts the output, in exact arithmetic, and the sampled one does
whenever the sampler returns its rows. -/
theorem case_passes (hcase : validateCase tc = true) {coreNumAic : UInt32}
    (hcore : 0 < coreNumAic.toNat) (lib : UInt32) (hfits : tc.shape.Fits coreNumAic.toNat)
    {exp : F → F} (hexp : ∀ a b, exp a * exp (-b) = exp (a - b)) (bits : F → ℕ) (ofBits : ℕ → F)
    (inputs : HostInputs F) :
    let fl := exactFloat exp bits ofBits
    let x := deviceInputs fl inputs
    ∃ out, chunkScaledDotKktTilingFunc (tc.tilingContext coreNumAic lib) = .ok out ∧
      ∃ L : Launch, L.tiling = out.tiling ∧ ∃ calls : ℕ → Fin 2 → List LaneCall,
        (∀ g < L.groups, ∀ lane : Fin 2, ∀ fuel : ℕ, L.tiling.taskCount g < fuel →
          process L.tiling tc.deviceOffsets (2 * g + lane : ℕ) fuel = some (calls g lane)) ∧
        (∀ stale m, (∀ g lane, (m.lane g lane).Idle []) →
          (∀ s, L.DeviceReachable tc.deviceOffsets x out.tilingKey stale calls m s →
            (¬ s.Final → ∃ s', Family.Step (net true) inOrder
              (L.deviceAct tc.deviceOffsets x out.tilingKey stale) s s') ∧
            ∀ s', Family.Step (net true) inOrder
                (L.deviceAct tc.deviceOffsets x out.tilingKey stale) s s' →
              s'.size (Finset.range L.groups) < s.size (Finset.range L.groups)) ∧
          (∃ s, L.DeviceReachable tc.deviceOffsets x out.tilingKey stale calls m s ∧ s.Final) ∧
          ∀ poison, ∃ actual, launches L tc.deviceOffsets x out.tilingKey calls
            (tc.warmup + tc.repeats).toNat poison actual) ∧
        ∀ poison actual, launches L tc.deviceOffsets x out.tilingKey calls
            (tc.warmup + tc.repeats).toNat poison actual →
          fullOutputPasses fl tc inputs actual = some true ∧
          ∀ fuel rows, buildSampleRows tc fuel tc.sampledRows = some rows →
            sampledOutputPasses fl tc inputs fuel tc.sampledRows actual = some true := by
  intro fl x
  have hacc := validateCase_accepted hcase
  have hfields := validateCase_fields hcase
  have hshape := validateAndReadShape_eq hcase coreNumAic lib
  obtain ⟨out, hout⟩ := chunkScaledDotKktTilingFunc_case hcase hcore lib
  obtain ⟨L, hL, ht, hchunks, hheads, -, hkDim, hsized⟩ := exists_launch_of_call hshape hout hfits
  have hhg : L.tiling.hg = tc.hg := by
    obtain ⟨shape', hshape', -, htiling⟩ := chunkScaledDotKktTilingFunc_ok hout
    rw [hshape] at hshape'
    cases hshape'
    rw [hL, htiling]
    rfl
  have hmono : tc.deviceOffsets.Nondecreasing L.chunks := by
    have hcount : L.chunks = tc.chunkOffsets.length - 1 := by
      have htwo := hacc.two_le
      simp only [TestCase.shape] at hchunks
      omega
    rw [hcount]
    exact deviceOffsets_nondecreasing hacc
  have hw : ∀ c < L.chunks, ¬ tc.deviceOffsets.Wraps c := fun c hc => hmono.not_wraps hc
  obtain ⟨calls, hwalks, hloops⟩ := L.exists_walks tc.deviceOffsets
  refine ⟨out, hout, L, hL, calls, hloops, ?_, ?_⟩
  · intro stale m hidle
    refine ⟨fun s hreach => ⟨Launch.device_step hsized hw hwalks hreach,
      fun s' hstep => hstep.size_lt fun g => Launch.todo_outside hreach⟩,
      Launch.device_finishes hsized hw hwalks .refl, fun poison => ?_⟩
    have hends : ∀ m : DeviceMemory F, (∀ g lane, (m.lane g lane).Idle []) →
        ∃ s, L.DeviceReachable tc.deviceOffsets x out.tilingKey stale calls m s ∧ s.Final :=
      fun _ _ => Launch.device_finishes hsized hw hwalks .refl
    exact exists_launches hidle hends _ poison
  intro poison actual hlaunches
  obtain ⟨n, hn⟩ : ∃ n, (tc.warmup + tc.repeats).toNat = n + 1 := by
    have hrepeats := hfields.repeats_pos
    have hwarmup := hfields.warmup_nonneg
    exact ⟨(tc.warmup + tc.repeats).toNat - 1, by omega⟩
  rw [hn] at hlaunches
  -- only the last launch counts
  obtain ⟨before, -, stale, m, s, rfl, hidle, hreach, hfinal, rfl⟩ := hlaunches
  have hinv := Launch.deviceInvariant hsized hw hwalks hexp (fun g _ => hidle g) hreach
  have hcomputed := hinv.computed hsized.numRepeat_pos hmono hwalks hfinal
  rw [← hkDim] at hcomputed
  have hmatches := outputMatches_of_computed hcase inputs exp bits ofBits ht hhg hheads hchunks
    hcomputed
  refine ⟨(fullOutputPasses_eq hacc).mpr hmatches, ?_⟩
  intro fuel rows hrows
  exact sampledOutputPasses_of_matches hacc hrows hmatches

/-- The offsets of 10016 tokens in one sequence. -/
def fullOffsets : List ℤ := (List.range 157).map (fun i : ℕ => 64 * (i : ℤ)) ++ [10016]

theorem fullOffsets_lt : ∀ x ∈ fullOffsets, x < 2147483648 := by
  intro x hx
  simp only [fullOffsets, List.mem_append, List.mem_map, List.mem_range, List.mem_singleton] at hx
  omega

theorem eightHeads_lt : (8 : ℤ) < 9223372036854775808 := by decide

/-- The built-in case `perf_official_like_k128`: 156 full chunks and one of 32 tokens, with
16 sampled rows. -/
def perfOfficialLike : TestCase where
  t := 10016
  h := 8
  hg := 2
  k := 128
  chunkOffsets := fullOffsets
  gatePattern := .monotonicCumsum
  warmup := 5
  repeats := 20
  sampledRows := 16
  h_lt := eightHeads_lt
  offsets_lt := fullOffsets_lt

/-- The first eight chunks have the rows that the sampler wants. -/
theorem samplesRows_perfOfficialLike (hcase : validateCase perfOfficialLike = true) :
    SamplesRows perfOfficialLike 16 := by
  have hkeys : 16 ≤ (startKeys perfOfficialLike 8).card := by decide +kernel
  have hsub : startKeys perfOfficialLike 8 ⊆ allKeys perfOfficialLike :=
    (startKeys_mono perfOfficialLike (by decide +kernel)).trans Finset.subset_union_left
  exact samplesRows_of_enough (validateCase_accepted hcase) (by decide) (by decide) (by decide)
    (by decide) (Or.inl ⟨fun h => absurd h.1 (by decide),
      Int.ofNat_le.mpr (hkeys.trans (Finset.card_le_card hsub))⟩)

/-- The case `perf_official_like_k128` on 20 AICs, over the reals: its 25 launches leave an
output that both validators accept. -/
theorem case_passes_perfOfficialLike :
    let fl := exactFloat Real.exp (fun _ => 0) (fun n => n)
    let inputs : HostInputs ℝ := ⟨fun _ => 1, fun _ => 1, fun a => a⟩
    ∃ (L : Launch) (calls : ℕ → Fin 2 → List LaneCall), ∀ poison actual,
      launches L perfOfficialLike.deviceOffsets (deviceInputs fl inputs) .k128 calls 25 poison
        actual →
      fullOutputPasses fl perfOfficialLike inputs actual = some true ∧
      ∃ n, sampledOutputPasses fl perfOfficialLike inputs n 16 actual = some true := by
  intro fl inputs
  have hcase : validateCase perfOfficialLike = true := by decide +kernel
  have hfits : perfOfficialLike.shape.Fits 20 := by
    constructor <;> decide +kernel
  obtain ⟨out, hout, L, -, calls, -, -, h⟩ := @case_passes _ _ _ _ _ hcase 20 (by decide) 0 hfits
    _ exp_mul_exp_neg (fun _ => 0) (fun n => n) inputs
  have hkey : out.tilingKey = .k128 :=
    (chunkScaledDotKktTilingFunc_sizes hout (validateAndReadShape_eq hcase 20 0)).1
  rw [hkey] at h
  obtain ⟨n, rows, hrows, -⟩ := samplesRows_perfOfficialLike hcase
  refine ⟨L, calls, fun poison actual hlaunches => ?_⟩
  obtain ⟨hfull, hsampled⟩ := h poison actual hlaunches
  exact ⟨hfull, n + 1, hsampled (n + 1) rows (hrows (n + 1) (Nat.lt_succ_self n))⟩

end ChunkScaledDotKkt.Harness
