import ChunkScaledDotKkt.Harness.Inputs
import ChunkScaledDotKkt.Harness.SampleRows

/-!
# Validating an output

Both validators look up the chunk of a row's token and read its two bounds without a
guard; `none` stands for a read past the end of the offsets.  The expected value has a
guard of its own.

## Main results

* `harness_partition` — generator, case check, chunk search, gate fill and validators
  agree on one partition of `[0, t)`.
-/

namespace ChunkScaledDotKkt.Harness

open MachineInt IntervalChain

/-- One comparison of an output element; the arguments of `UpdateCheckStats`. -/
structure OutputCheck (F : Type) where
  index : ℤ
  expected : F
  head : ℤ
  token : ℤ
  localJ : ℤ
  padding : Bool

section

variable {F : Type} (fl : HostFloat F) (tc : TestCase) (inputs : HostInputs F)

/-- The sum over the key dimension, in order. -/
def expectedDot (kv token j : ℤ) : F :=
  (List.range tc.k.toNat).foldl
    (fun dot d =>
      let iIndex := (token * tc.hg + kv) * tc.k + d
      let jIndex := (j * tc.hg + kv) * tc.k + d
      fl.add dot (fl.mul (bFloat16ToFloat fl (inputs.k iIndex))
        (bFloat16ToFloat fl (inputs.k jIndex))))
    (fl.lit 0)

def computeExpectedAt (head token localJ : ℤ) : F :=
  let chunk := tc.findChunkIndex token
  if tc.chunkOffsets.length ≤ chunk + 1 then fl.lit 0
  else
    let chunkBegin := tc.chunkOffsets.getD chunk 0
    let chunkEnd := tc.chunkOffsets.getD (chunk + 1) 0
    let j := chunkBegin + localJ
    if chunkEnd ≤ j then fl.lit 0
    else
      let diff := fl.sub (inputs.g (head * tc.t + token)) (inputs.g (head * tc.t + j))
      if !fl.lt diff (fl.lit 0) then fl.lit 0
      else
        let kv := head.tdiv (tc.h.tdiv tc.hg)
        let beta := bFloat16ToFloat fl (inputs.beta (head * tc.t + token))
        fl.mul (fl.mul beta (fl.exp diff)) (expectedDot fl tc inputs kv token j)

/-- The bounds that both validators read for a token. -/
def chunkBounds (token : ℤ) : Option (ℤ × ℤ) := do
  let chunk := tc.findChunkIndex token
  let chunkBegin ← tc.chunkOffsets[chunk]?
  let chunkEnd ← tc.chunkOffsets[chunk + 1]?
  return (chunkBegin, chunkEnd)

/-- The comparisons of one output row. -/
def checkRow (row : ℤ × ℤ) : Option (List (OutputCheck F)) := do
  let (chunkBegin, chunkEnd) ← chunkBounds tc row.2
  return (List.range kChunkSize.toNat).map fun localJ : ℕ =>
    { index := (row.1 * tc.t + row.2) * kChunkSize + localJ
      expected := computeExpectedAt fl tc inputs row.1 row.2 localJ
      head := row.1
      token := row.2
      localJ := localJ
      padding := chunkEnd ≤ chunkBegin + localJ }

/-- All rows of the output, head by head. -/
def outputRows : List (ℤ × ℤ) :=
  (List.range tc.h.toNat).flatMap fun head : ℕ =>
    (List.range tc.t.toNat).map fun token : ℕ => (head, token)

def validateFullOutput : Option (List (OutputCheck F)) := do
  let rows ← (outputRows tc).mapM (checkRow fl tc inputs)
  return rows.flatten

/-- The rows come from the sampler unless no row is asked for. -/
def validateSampledOutput (rows : List (ℤ × ℤ)) : Option (List (OutputCheck F)) := do
  let rows ← rows.mapM (checkRow fl tc inputs)
  return rows.flatten

end

variable {F : Type} {fl : HostFloat F} {tc : TestCase} {inputs : HostInputs F}

/-- The bounds of a token's chunk are read and hold the token. -/
theorem chunkBounds_eq (h : Accepted tc.t tc.chunkOffsets) {token : ℤ} (h0 : 0 ≤ token)
    (ht : token < tc.t) :
    ∃ begin stop, chunkBounds tc token = some (begin, stop) ∧ begin ≤ token ∧ token < stop := by
  obtain ⟨-, begin, stop, hb, hs, hlow, hhigh, -⟩ := findChunkIndex_spec h h0 ht
  refine ⟨begin, stop, ?_, hlow, hhigh⟩
  simp [chunkBounds, hb, hs]

/-- Rows of the output are checked without a read past the offsets. -/
theorem mapM_checkRow (h : Accepted tc.t tc.chunkOffsets) {rows : List (ℤ × ℤ)}
    (hrows : ∀ r ∈ rows, 0 ≤ r.2 ∧ r.2 < tc.t) :
    ∃ checks, rows.mapM (checkRow fl tc inputs) = some checks := by
  induction rows with
  | nil => exact ⟨[], rfl⟩
  | cons row rows ih =>
      have hrow := hrows row (by simp)
      obtain ⟨begin, stop, hbounds, -⟩ := chunkBounds_eq h hrow.1 hrow.2
      obtain ⟨checks, hchecks⟩ := ih fun r hr => hrows r (List.mem_cons_of_mem row hr)
      rw [List.mapM_cons, hchecks, checkRow, hbounds]
      exact ⟨_, rfl⟩

theorem mem_outputRows {row : ℤ × ℤ} (h : row ∈ outputRows tc) : 0 ≤ row.2 ∧ row.2 < tc.t := by
  simp only [outputRows, List.mem_flatMap, List.mem_map, List.mem_range] at h
  obtain ⟨head, -, token, htoken, rfl⟩ := h
  simp only
  omega

/-- The full validator reads no offset past the end. -/
theorem validateFullOutput_reads (h : Accepted tc.t tc.chunkOffsets) :
    ∃ checks, validateFullOutput fl tc inputs = some checks := by
  have hrows : ∀ r ∈ outputRows tc, 0 ≤ r.2 ∧ r.2 < tc.t := fun r hr => mem_outputRows hr
  obtain ⟨checks, hchecks⟩ : ∃ checks, (outputRows tc).mapM (checkRow fl tc inputs) = some checks :=
    mapM_checkRow h hrows
  exact ⟨checks.flatten, by rw [validateFullOutput, hchecks]; rfl⟩

/-- Nor does the sampled one, on rows that the sampler returned. -/
theorem validateSampledOutput_reads (h : Accepted tc.t tc.chunkOffsets) {fuel : ℕ}
    {targetRows : ℤ} {rows : List (ℤ × ℤ)}
    (hrun : buildSampleRows tc fuel targetRows = some rows) :
    ∃ checks, validateSampledOutput fl tc inputs rows = some checks := by
  obtain ⟨checks, hchecks⟩ : ∃ checks, rows.mapM (checkRow fl tc inputs) = some checks :=
    mapM_checkRow h (buildSampleRows_tokens hrun)
  exact ⟨checks.flatten, by rw [validateSampledOutput, hchecks]; rfl⟩

/-- **One partition of `[0, t)`** for the whole harness.  The generator terminates with
offsets that the case check accepts and that cut a chunk short only at a sequence
boundary.  Over any accepted offsets the search finds the one chunk of each token, both
validators read only offsets that exist, and the gate loop writes each gate once. -/
theorem harness_partition :
    (∀ (cuSeqlens : List ℤ) (t : ℤ), cuSeqlens.IsChain (· ≤ ·) → cuSeqlens.head? = some 0 →
      cuSeqlens.getLast? = some t → 1 ≤ t → t ≤ 2147483648 - 64 →
      ∃ offsets, (∀ fuel, t.toNat < fuel → buildChunkOffsets fuel cuSeqlens = some offsets) ∧
        offsets.head? = some 0 ∧ offsets.getLast? = some t ∧
        (∀ p ∈ intervals offsets, p.1 < p.2 ∧ p.2 - p.1 ≤ 64) ∧
        (∀ b ∈ cuSeqlens, b ∈ offsets) ∧
        (∀ p ∈ intervals offsets, p.2 ∉ cuSeqlens → p.2 - p.1 = 64) ∧
        offsetsAccepted t offsets = true) ∧
    (∀ tc : TestCase, offsetsAccepted tc.t tc.chunkOffsets = true →
      (∀ token, 0 ≤ token → token < tc.t →
        tc.findChunkIndex token + 1 < tc.chunkOffsets.length ∧
        ∃ begin stop, tc.chunkOffsets[tc.findChunkIndex token]? = some begin ∧
          tc.chunkOffsets[tc.findChunkIndex token + 1]? = some stop ∧
          begin ≤ token ∧ token < stop ∧
          ∀ c begin' stop', tc.chunkOffsets[c]? = some begin' →
            tc.chunkOffsets[c + 1]? = some stop' → begin' ≤ token → token < stop' →
            c = tc.findChunkIndex token) ∧
      (∀ (F : Type) (fl : HostFloat F) (inputs : HostInputs F),
        (∃ checks, validateFullOutput fl tc inputs = some checks) ∧
        ∀ fuel targetRows rows, buildSampleRows tc fuel targetRows = some rows →
          ∃ checks, validateSampledOutput fl tc inputs rows = some checks) ∧
      ∀ (F : Type) (fl : HostFloat F) (head token : ℤ), 0 ≤ head ∧ head < tc.h →
        0 ≤ token ∧ token < tc.t →
        ((gateWrites fl tc).map Prod.fst).count (head * tc.t + token) = 1) := by
  constructor
  · intro cuSeqlens t hchain hhead hlast ht hmax
    obtain ⟨offsets, hrun, hpart, hsub⟩ :=
      buildChunkOffsets_partitions hchain hhead hlast hmax
    have hchunks := isChain_iff_intervals.mp hpart.chunks
    have hacc := hpart.accepted (by omega)
    have hint : ∀ x ∈ offsets, x < 2147483648 := by
      intro x hx
      have := between_ends hacc.increasing hacc.head hacc.last hx
      omega
    refine ⟨offsets, hrun, hpart.head, hpart.last, ?_, hsub, ?_, ?_⟩
    · intro p hp
      exact ⟨(hchunks p hp).1, (hchunks p hp).2.1⟩
    · intro p hp
      exact (hchunks p hp).2.2
    · exact (offsetsAccepted_iff hint).mpr hacc
  · intro tc haccepted
    have hacc := (offsetsAccepted_iff tc.offsets_lt).mp haccepted
    refine ⟨fun token h0 ht => findChunkIndex_spec hacc h0 ht, ?_, ?_⟩
    · intro F fl inputs
      exact ⟨validateFullOutput_reads hacc, fun fuel targetRows rows hrun =>
        validateSampledOutput_reads hacc hrun⟩
    · intro F fl head token hhead htoken
      exact gateWrites_count fl hacc hhead htoken

/-- The built-in case `mixed_full_tail_multiseq_k128`: four sequences of 65, 99, 65 and 71
tokens. -/
def mixedFullTail : TestCase where
  t := 300
  h := 8
  hg := 2
  k := 128
  chunkOffsets := [0, 64, 65, 129, 164, 228, 229, 293, 300]
  gatePattern := .monotonicCumsum
  warmup := 1
  repeats := 3
  sampledRows := 0
  h_lt := by decide
  offsets_lt := by decide

/-- The four sequences are cut into eight chunks, and every token is found in one. -/
theorem harness_partition_mixedFullTail :
    (∃ offsets, buildChunkOffsets 301 [0, 65, 164, 229, 300] = some offsets ∧
      offsets = mixedFullTail.chunkOffsets ∧
      ∀ p ∈ intervals offsets, p.2 ∉ [0, 65, 164, 229, 300] → p.2 - p.1 = 64) ∧
    ∀ token, 0 ≤ token → token < 300 → mixedFullTail.findChunkIndex token < 8 := by
  constructor
  · obtain ⟨offsets, hrun, -, -, -, -, hfull, -⟩ := harness_partition.1 [0, 65, 164, 229, 300] 300
      (by decide) rfl rfl (by decide) (by decide)
    have hoffsets := hrun 301 (by decide)
    have heval : buildChunkOffsets 301 [0, 65, 164, 229, 300] =
      some mixedFullTail.chunkOffsets := by decide
    rw [heval, Option.some.injEq] at hoffsets
    exact ⟨offsets, heval.trans (congrArg some hoffsets), hoffsets.symm, hfull⟩
  · intro token h0 ht
    have hindex := ((harness_partition.2 mixedFullTail (by decide)).1 token h0 ht).1
    have hlen : mixedFullTail.chunkOffsets.length = 9 := rfl
    omega

end ChunkScaledDotKkt.Harness
